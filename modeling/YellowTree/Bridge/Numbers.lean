import YellowTree.Bridge.Arguments

/-!
# YellowTree.Bridge.Numbers — which numbers a Java method gets

A number for an I or J parameter goes through `math.floor`, the conversion of `luaL_checkinteger` and that of C to 32
or 64 bits, one for a String parameter becomes a text, and the first candidates to accept an argument, whatever it is
worth to them, put it into `jargs`.

* `passesNumbers_iff`: all numbers reach Java unchanged exactly when the candidate that is called represents each of
  them, and what the candidates before it left in the place of a number cannot be told from it there.
* `passesNumbers_first`: where the candidates before leave nothing, this says that the first candidate that accepts
  all arguments represents each number.
-/

namespace YellowTree

open CollectLoop MarshalEnv

variable {Class Method Ref : Type}

/-! ## Numbers that a type represents -/

section Represents

/-- A parameter of type `p` can have the value `q`; F and D are taken as exact. -/
def Represents : PrimType → ℚ → Prop
  | .I, q => ∃ n : ℤ, q = n ∧ -2 ^ 31 ≤ n ∧ n < 2 ^ 31
  | .J, q => ∃ n : ℤ, q = n ∧ -2 ^ 63 ≤ n ∧ n < 2 ^ 63
  | .F, _ => True
  | .D, _ => True
  | _, _ => False

/-- The types for which `jcallable_method:__call` has a branch for numbers. -/
def PrimType.isNumber (p : PrimType) : Bool :=
  match p with
  | .I | .J | .F | .D => true
  | _ => false

variable {e : MarshalEnv}

/-- The conversions to an integer of `2 ^ (k + 1)` values keep the integers of that range, and no other number. -/
theorem cast_floor_iff {k : ℕ} (hk : k ≤ 63) {q : ℚ} :
    (LuaNumber.finite ((e.cast.cast (LuaNumber.finite q).floor).bmod (2 ^ (k + 1)) : ℤ) = .finite q) ↔
      ∃ n : ℤ, q = n ∧ -2 ^ k ≤ n ∧ n < 2 ^ k := by
  have hpow : (2 : ℤ) ^ k ≤ 2 ^ 63 := pow_le_pow_right₀ (by norm_num) hk
  have hsucc : ((2 ^ (k + 1) : ℕ) : ℤ) = 2 * 2 ^ k := by push_cast; ring
  constructor
  · intro h
    have hge := Int.le_bmod (x := e.cast.cast (LuaNumber.finite q).floor) (m := 2 ^ (k + 1)) (by positivity)
    have hlt := Int.bmod_lt (x := e.cast.cast (LuaNumber.finite q).floor) (m := 2 ^ (k + 1)) (by positivity)
    refine ⟨_, (LuaNumber.finite.inj h).symm, ?_, ?_⟩
    · rw [hsucc] at hge
      omega
    · rw [hsucc] at hlt
      omega
  · rintro ⟨n, rfl, hlow, hhigh⟩
    have hfloor : (LuaNumber.finite (n : ℚ)).floor = .finite (n : ℚ) := by rw [LuaNumber.floor, Int.floor_intCast]
    rw [hfloor, e.cast.cast_int (by omega) (by omega), Int.bmod_eq_of_le]
    · rw [hsucc]; omega
    · rw [hsucc]; omega

end Represents

/-! ## Passing a number -/

section Spec

variable (env : CallEnv Class Method Ref) (e : MarshalEnv) (args : List (Value Class Ref))

/-- `m` has a parameter for each argument, accepts it, and represents it when it is a number. -/
structure CanTake (m : JmethodId Class Method) : Prop where
  arity : (m.info env.jvm).params.length = args.length
  takes : ∀ r ∈ (m.info env.jvm).params.zip args, (∃ j, encodeArg env r.1.descriptor r.2 = .ok (some j)) ∧
    ∀ q, r.2 = .number (.finite q) → ∃ p, r.1 = .prim p ∧ Represents p q

/-- The numbers among the arguments are rationals, floats are exact, and some candidate can take the arguments. -/
structure Takable (possible : List (JmethodId Class Method)) : Prop where
  rational : ∀ n, .number n ∈ args → ∃ q, n = .finite q
  exactFloat : ∀ n, e.toFloat n = n
  candidate : ∃ m ∈ possible, CanTake env args m

/-- A call is made, and each number is in the member of the parameter's type in its `jvalue`. -/
def PassesNumbers : Except LuaError (Invocation Class Method Ref) → Prop
  | .ok inv => ∃ vals, e.marshal inv.argc inv.jargs = .ok vals ∧ ∀ (i : ℕ) (q : ℚ),
      args[i]? = some (.number (.finite q)) →
        ∃ p, (inv.method.info env.jvm).params[i]? = some (.prim p) ∧ vals[i]? = some (.number p (.finite q))
  | .error _ => False

/-- A parameter of type `p` does not tell the number `x` from `q`: they are equal or, for I and J, the integers that
C makes of them differ by a multiple of the number of values of the type. -/
def Agrees (p : PrimType) (x : LuaNumber) (q : ℚ) : Prop :=
  match p with
  | .I => ∃ n : ℤ, q = n ∧ 2 ^ 32 ∣ e.cast.cast x.floor - n
  | .J => ∃ n : ℤ, q = n ∧ 2 ^ 64 ∣ e.cast.cast x.floor - n
  | .F => x = .finite q
  | .D => x = .finite q
  | _ => False

/-- Without arguments: the first loop ends at a candidate without parameters.  With arguments: as the candidates are
tried, `argc` arguments have been accepted at one of the parameters of `m`, and no class is missing before; `m`
represents each number; and in the place of a number stands, among the arguments accepted, one for a parameter of the
same type that does not tell it from this number (as where the candidates before `m` accept nothing). -/
def KeepsNumbers (possible : List (JmethodId Class Method)) : Prop :=
  if luaLen args = 0 then
    (∃ m, possible.find? (endsFirstLoop env.jvm) = some m ∧ ')' ∉ retText (m.info env.jvm).ret) ∧
      ∀ q, .number (.finite q) ∉ args
  else
    (∀ m ∈ possible, ')' ∉ retText (m.info env.jvm).ret) ∧
      ∃ pre m r post, rounds env args (tried env args possible) = pre ++ (m, r) :: post ∧
        (∀ r' ∈ pre, ¬ MissingClass env r'.2) ∧ gives (roundPair env) (m, r) = true ∧
        ((pre ++ [(m, r)]).filter (gives (roundPair env))).length = luaLen args ∧
        ∀ (i : ℕ) (q : ℚ), args[i]? = some (.number (.finite q)) → ∃ p,
          (m.info env.jvm).params[i]? = some (.prim p) ∧ Represents p q ∧
          ∃ m' x, ((pre ++ [(m, r)]).filter (gives (roundPair env)))[i]? = some (m', [p.char], .number x) ∧
            Agrees e p x q

end Spec

/-! ## From the pairs to the `jvalue`s -/

section Pairs

variable {env : CallEnv Class Method Ref} {e : MarshalEnv}

/-- Two related lists have related elements in each place. -/
theorem related_getElem? {α β : Type} {R : α → β → Prop} {as : List α} {bs : List β} (h : List.Forall₂ R as bs)
    (i : ℕ) : (as[i]? = none ∧ bs[i]? = none) ∨ ∃ a b, as[i]? = some a ∧ bs[i]? = some b ∧ R a b := by
  induction h generalizing i with
  | nil => exact Or.inl ⟨rfl, rfl⟩
  | cons hab hrest ih =>
    cases i with
    | zero => exact Or.inr ⟨_, _, rfl, rfl, hab⟩
    | succ i => exact ih i

theorem isNumber_iff {p : PrimType} : p.isNumber = true ↔ p = .I ∨ p = .J ∨ p = .F ∨ p = .D := by
  cases p <;> decide

theorem encodeArg_number {p : PrimType} (hp : p.isNumber = true) (n : LuaNumber) :
    encodeArg env [p.char] (.number n) = .ok (some (numberPair p n)) := by
  rcases isNumber_iff.mp hp with rfl | rfl | rfl | rfl <;> rfl

/-- A pair that is read as a number was made from a number. -/
theorem number_of_marshalArg {t : LuaString} {v : Value Class Ref} {j : JArg Ref} {p : PrimType} {x : LuaNumber}
    (h : encodeArg env t v = .ok (some j)) (hj : e.marshalArg j = .ok (.number p x)) :
    p.isNumber = true ∧ t = [p.char] ∧ ∃ n, v = .number n ∧ x = passed e p n := by
  rcases encodeArg_eq_some h with rfl | ⟨text, rfl⟩ | ⟨b, rfl⟩ | ⟨p', n, hp, ht, hv, rfl⟩ | ⟨tag, raw, htag, rfl⟩
  · cases Except.ok.inj hj
  · cases Except.ok.inj hj
  · cases Except.ok.inj hj
  · rw [marshalArg_number hp] at hj
    obtain ⟨rfl, rfl⟩ := JValue.number.inj (Except.ok.inj hj)
    exact ⟨isNumber_iff.mpr hp, ht, n, hv, rfl⟩
  · rcases htag with rfl | rfl
    · cases Except.ok.inj hj
    · cases Except.ok.inj hj

/-- An integer of `2 ^ (k + 1)` values, and those that C narrows to it. -/
theorem bmod_eq_iff {k : ℕ} {c : ℤ} {q : ℚ} : (((c.bmod (2 ^ (k + 1)) : ℤ) : ℚ) = q) ↔
    (∃ n : ℤ, q = n ∧ -2 ^ k ≤ n ∧ n < 2 ^ k) ∧ ∃ n : ℤ, q = n ∧ 2 ^ (k + 1) ∣ c - n := by
  have hsucc : ((2 ^ (k + 1) : ℕ) : ℤ) = 2 * 2 ^ k := by push_cast; ring
  have hcast : ((2 ^ (k + 1) : ℕ) : ℤ) = 2 ^ (k + 1) := by push_cast; rfl
  constructor
  · rintro rfl
    have hge := Int.le_bmod (x := c) (m := 2 ^ (k + 1)) (by positivity)
    have hlt := Int.bmod_lt (x := c) (m := 2 ^ (k + 1)) (by positivity)
    rw [hsucc] at hge hlt
    refine ⟨⟨_, rfl, by omega, by omega⟩, _, rfl, ?_⟩
    rw [← hcast]
    exact Int.dvd_self_sub_bmod
  · rintro ⟨⟨n, rfl, hlow, hhigh⟩, n', hn, hmod⟩
    obtain rfl : n = n' := by exact_mod_cast hn
    have hbmod : c.bmod (2 ^ (k + 1)) = n.bmod (2 ^ (k + 1)) := by
      unfold Int.bmod
      rw [hcast, Int.emod_eq_emod_iff_emod_sub_eq_zero.mpr (Int.emod_eq_zero_of_dvd hmod)]
    rw [hbmod, Int.bmod_eq_of_le]
    · rw [hsucc]; omega
    · rw [hsucc]; omega

/-- A number arrives as `q` exactly when the type represents `q` and does not tell the number from it. -/
theorem passed_eq_finite_iff (hexact : ∀ n, e.toFloat n = n) {p : PrimType} {x : LuaNumber} {q : ℚ} :
    p.isNumber = true ∧ passed e p x = .finite q ↔ Represents p q ∧ Agrees e p x q := by
  cases p with
  | I => exact (and_iff_right rfl).trans ((LuaNumber.finite.injEq _ _).to_iff.trans (bmod_eq_iff (k := 31)))
  | J => exact (and_iff_right rfl).trans ((LuaNumber.finite.injEq _ _).to_iff.trans (bmod_eq_iff (k := 63)))
  | F =>
    have hpassed : passed e .F x = x := hexact x
    rw [hpassed]
    exact and_congr (iff_of_true rfl trivial) Iff.rfl
  | D => exact and_congr (iff_of_true rfl trivial) Iff.rfl
  | _ => exact iff_of_false (fun h => by cases h.1) fun h => h.1

/-- A number cannot be told from itself. -/
theorem agrees_self {p : PrimType} {q : ℚ} (h : Represents p q) : Agrees e p (.finite q) q := by
  cases p with
  | I =>
    have hkept := (cast_floor_iff (e := e) (k := 31) (by decide)).mpr h
    exact (bmod_eq_iff.mp (LuaNumber.finite.inj hkept)).2
  | J =>
    have hkept := (cast_floor_iff (e := e) (k := 63) (by decide)).mpr h
    exact (bmod_eq_iff.mp (LuaNumber.finite.inj hkept)).2
  | F => rfl
  | D => rfl
  | _ => exact h

/-- A number arrives in place `i` exactly when the round that gives the pair there makes it of one. -/
theorem marshalled_number_iff (hexact : ∀ n, e.toFloat n = n) {rs : List (Round Class Method Ref)}
    {vals : List (JValue Ref)}
    (hvals : List.Forall₂ (fun arg val => e.marshalArg arg = .ok val) (given (roundPair env) rs) vals)
    {i : ℕ} {p : PrimType} {q : ℚ} :
    vals[i]? = some (.number p (.finite q)) ↔
      Represents p q ∧
        ∃ m' x, (rs.filter (gives (roundPair env)))[i]? = some (m', [p.char], .number x) ∧ Agrees e p x q := by
  constructor
  · intro h
    rcases related_getElem? hvals i with ⟨-, hnone⟩ | ⟨j, val, hj, hval, hread⟩
    · rw [h] at hnone
      cases hnone
    · obtain rfl := Option.some.inj (h.symm.trans hval)
      obtain ⟨⟨m', t, v⟩, hr, henc⟩ := getElem?_given.mp hj
      obtain ⟨hp, rfl, n, rfl, hn⟩ := number_of_marshalArg henc hread
      obtain ⟨hrep, hagrees⟩ := (passed_eq_finite_iff hexact).mp ⟨hp, hn.symm⟩
      exact ⟨hrep, m', n, hr, hagrees⟩
  · rintro ⟨hrep, m', x, hr, hagrees⟩
    obtain ⟨hp, hpassed⟩ := (passed_eq_finite_iff hexact).mpr ⟨hrep, hagrees⟩
    have hpair : (given (roundPair env) rs)[i]? = some (numberPair p x) :=
      getElem?_given.mpr ⟨_, hr, encodeArg_number hp x⟩
    rcases related_getElem? hvals i with ⟨hnone, -⟩ | ⟨j, val, hj, hval, hread⟩
    · rw [hpair] at hnone
      cases hnone
    · obtain rfl := Option.some.inj (hpair.symm.trans hj)
      rw [marshalArg_number (isNumber_iff.mp hp), hpassed] at hread
      rw [hval, Except.ok.inj hread]

end Pairs

/-! ## Exactness -/

section Exactness

variable {env : CallEnv Class Method Ref} {e : MarshalEnv} {args : List (Value Class Ref)}
  {possible : List (JmethodId Class Method)}

/-- A call without arguments. -/
theorem passesNumbers_zero (object : Receiver Class Ref) (hzero : luaLen args = 0) :
    PassesNumbers env e args (call env object possible args) ↔
      (∃ m, possible.find? (endsFirstLoop env.jvm) = some m ∧ ')' ∉ retText (m.info env.jvm).ret) ∧
        ∀ q, .number (.finite q) ∉ args := by
  rw [call_zero object possible hzero]
  cases hfind : possible.find? (endsFirstLoop env.jvm) with
  | none => exact iff_of_false (fun h => h) fun ⟨⟨m, hm, _⟩, _⟩ => by cases hm
  | some m =>
    dsimp only
    by_cases hparen : ')' ∈ retText (m.info env.jvm).ret
    · rw [if_pos hparen]
      refine iff_of_false (fun h => h) ?_
      rintro ⟨⟨m', hm', hnot⟩, -⟩
      obtain rfl := Option.some.inj hm'
      exact hnot hparen
    · rw [if_neg hparen]
      constructor
      · rintro ⟨vals, hvals, hall⟩
        refine ⟨⟨m, rfl, hparen⟩, fun q hq => ?_⟩
        obtain rfl := Except.ok.inj hvals
        obtain ⟨i, hi⟩ := List.mem_iff_getElem?.mp hq
        obtain ⟨p, -, hp⟩ := hall i q hi
        cases hp
      · rintro ⟨-, hnone⟩
        exact ⟨[], rfl, fun i q hi => absurd (List.mem_of_getElem? hi) (hnone q)⟩

/-- A call with arguments. -/
theorem passesNumbers_pos (hexact : ∀ n, e.toFloat n = n) (object : Receiver Class Ref) (hpos : 1 ≤ luaLen args)
    (hret : ∀ m ∈ possible, ')' ∉ retText (m.info env.jvm).ret) :
    PassesNumbers env e args (call env object possible args) ↔
      ∃ pre m r post, rounds env args (tried env args possible) = pre ++ (m, r) :: post ∧
        (∀ r' ∈ pre, ¬ MissingClass env r'.2) ∧ gives (roundPair env) (m, r) = true ∧
        ((pre ++ [(m, r)]).filter (gives (roundPair env))).length = luaLen args ∧
        ∀ (i : ℕ) (q : ℚ), args[i]? = some (.number (.finite q)) → ∃ p,
          (m.info env.jvm).params[i]? = some (.prim p) ∧ Represents p q ∧
          ∃ m' x, ((pre ++ [(m, r)]).filter (gives (roundPair env)))[i]? = some (m', [p.char], .number x) ∧
            Agrees e p x q := by
  have hgiven : ∀ {pre : List (Round Class Method Ref)} {m p j}, encodeArg env p.1 p.2 = .ok (some j) →
      given (roundPair env) (pre ++ [(m, p)]) = given (roundPair env) pre ++ [j] := by
    intro pre m p j hj
    have hround : roundPair env (m, p) = .ok (some j) := hj
    exact given_concat hround pre
  constructor
  · intro h
    cases hcall : call env object possible args with
    | error err => rw [hcall] at h; exact h.elim
    | ok inv =>
      rw [hcall] at h
      obtain ⟨vals, hvals, hall⟩ := h
      obtain ⟨pre, m, p, post, j, hsplit, hpre, hj, hlen, rfl⟩ := (call_eq_ok_iff object hpos hret).mp hcall
      rw [← hgiven hj] at hlen hvals
      dsimp only at hvals hall
      rw [← hlen] at hvals
      refine ⟨pre, m, p, post, hsplit, fun r' hr' => exists_roundPair_iff.mp (hpre r' hr'),
        gives_roundPair_iff.mpr ⟨j, hj⟩, ?_, ?_⟩
      · rw [← length_given_eq, hlen]
      · intro i q hi
        obtain ⟨p', hparam, hval⟩ := hall i q hi
        exact ⟨p', hparam, (marshalled_number_iff hexact (marshal_iff.mp hvals)).mp hval⟩
  · rintro ⟨pre, m, p, post, hsplit, hpre, hgive, hlen, hall⟩
    obtain ⟨j, hj⟩ := gives_roundPair_iff.mp hgive
    rw [← length_given_eq, hgiven hj] at hlen
    have hcall := (call_eq_ok_iff object hpos hret).mpr
      ⟨pre, m, p, post, j, hsplit, fun r' hr' => exists_roundPair_iff.mpr (hpre r' hr'), hj, hlen, rfl⟩
    obtain ⟨vals, hvals⟩ := exists_marshal_of_call e hcall
    rw [hcall]
    refine ⟨vals, hvals, fun i q hi => ?_⟩
    obtain ⟨p', hparam, hplace⟩ := hall i q hi
    dsimp only at hvals ⊢
    rw [← hlen, ← hgiven hj] at hvals
    exact ⟨p', hparam, (marshalled_number_iff hexact (marshal_iff.mp hvals)).mpr hplace⟩

/-- **The first candidate that accepts**: where the candidates before it make no pairs, the numbers arrive exactly when
it represents them. -/
theorem passesNumbers_first (hexact : ∀ n, e.toFloat n = n) (object : Receiver Class Ref) (hpos : 1 ≤ luaLen args)
    {pre post : List (JmethodId Class Method)} {m : JmethodId Class Method}
    (hret : ∀ m' ∈ pre ++ m :: post, ')' ∉ retText (m'.info env.jvm).ret)
    (hpre : ∀ r ∈ rounds env args (tried env args pre), roundPair env r = .ok none)
    (hflat : ∀ t ∈ (m.info env.jvm).params, t.flat = true) (haccepts : accepts env args m = true) :
    PassesNumbers env e args (call env object (pre ++ m :: post) args) ↔ ∀ (i : ℕ) (q : ℚ),
      args[i]? = some (.number (.finite q)) → ∃ p, (m.info env.jvm).params[i]? = some (.prim p) ∧ Represents p q := by
  obtain ⟨hpieces, -⟩ := piecesOf_of_accepts haccepts hflat
  have hown : piecesOf env m = (m.info env.jvm).params.map FieldType.descriptor := flatMap_pieces_of_flat hflat
  have hlen := length_roundsOf hpieces
  have hall := roundsOf_of_accepts hpieces haccepts
  have hcall := call_first object hpos hret hpre hpieces hall
  obtain ⟨vals, hvals⟩ := exists_marshal_of_call e hcall
  have hread : List.Forall₂ (fun arg val => e.marshalArg arg = .ok val) (given (roundPair env) (roundsOf env args m))
      vals := by
    rw [← marshal_iff, length_given.mpr hall, hlen]
    exact hvals
  have hplace : ∀ (i : ℕ) (p : PrimType) (q : ℚ), args[i]? = some (.number (.finite q)) →
      (m.info env.jvm).params[i]? = some (.prim p) →
      (vals[i]? = some (.number p (.finite q)) ↔ Represents p q) := by
    intro i p q harg hparam
    have hround : ((roundsOf env args m).filter (gives (roundPair env)))[i]? =
        some (m, [p.char], .number (.finite q)) := by
      have hself : (roundsOf env args m).filter (gives (roundPair env)) = roundsOf env args m :=
        List.filter_eq_self.mpr fun r hr => by
          obtain ⟨j', hj'⟩ := hall r hr
          rw [gives, hj']
          rfl
      have hzip : ((piecesOf env m).zip args)[i]? = some ([p.char], .number (.finite q)) := by
        refine List.getElem?_zip_eq_some.mpr ⟨?_, harg⟩
        rw [hown, List.getElem?_map, hparam]
        rfl
      rw [hself, roundsOf, List.getElem?_map, hzip]
      rfl
    rw [marshalled_number_iff hexact hread]
    exact ⟨fun hboth => hboth.1, fun hrep => ⟨hrep, m, _, hround, agrees_self hrep⟩⟩
  rw [hcall]
  constructor
  · rintro ⟨vals', hvals', hall'⟩ i q harg
    obtain rfl := Except.ok.inj (hvals'.symm.trans hvals)
    obtain ⟨p', hparam, hval⟩ := hall' i q harg
    exact ⟨p', hparam, (hplace i p' q harg hparam).mp hval⟩
  · intro hrep
    refine ⟨vals, hvals, fun i q harg => ?_⟩
    obtain ⟨p', hparam, hr⟩ := hrep i q harg
    exact ⟨p', hparam, (hplace i p' q harg hparam).mpr hr⟩

/-- **Numbers reach Java unchanged**, where some candidate can take them, exactly under `KeepsNumbers`. -/
theorem passesNumbers_iff (env : CallEnv Class Method Ref) (e : MarshalEnv) (object : Receiver Class Ref)
    (possible : List (JmethodId Class Method)) (args : List (Value Class Ref)) (h : Takable env e args possible) :
    PassesNumbers env e args (call env object possible args) ↔ KeepsNumbers env e args possible := by
  unfold KeepsNumbers
  by_cases hzero : luaLen args = 0
  · rw [if_pos hzero]
    exact passesNumbers_zero object hzero
  · rw [if_neg hzero]
    have hpos : 1 ≤ luaLen args := Nat.one_le_iff_ne_zero.mpr hzero
    by_cases hret : ∀ m ∈ possible, ')' ∉ retText (m.info env.jvm).ret
    · rw [and_iff_right hret]
      exact passesNumbers_pos h.exactFloat object hpos hret
    · refine iff_of_false ?_ fun hcond => hret hcond.1
      rw [call_of_paren object hpos hret]
      exact fun hno => hno

/-- A class with two methods, `scale(int)` and, as method `true`, `scale(double)`. -/
def scaleEnv : CallEnv Unit Bool Unit where
  jvm := {
    className := fun _ => "Scale".toList
    declaringClass := fun _ => ()
    info := fun m => ⟨"scale".toList, [.prim (if m then .D else .I)], none, false, none⟩
    findClass := fun _ => some ()
    getMethodID := fun _ _ _ => none
    getStaticMethodID := fun _ _ _ => none }
  isAssignableFrom := fun _ _ => false
  format := fun _ => []
  objectRaw := fun _ => ()

/-- `scale(double)` can take each rational. -/
theorem scale_takable {q : ℚ} {possible : List (JmethodId Unit Bool)} (h : ⟨true, ()⟩ ∈ possible) :
    Takable scaleEnv .x86 [.number (.finite q)] possible where
  rational n hn := ⟨q, by simpa using hn⟩
  exactFloat n := rfl
  candidate := by
    refine ⟨⟨true, ()⟩, h, rfl, fun r hr => ?_⟩
    obtain rfl : r = (.prim .D, .number (.finite q)) := List.mem_singleton.mp hr
    exact ⟨⟨_, rfl⟩, fun _ _ => ⟨.D, rfl, trivial⟩⟩

/-- `scale(3/2)` calls `scale(int)` when it comes first. -/
theorem half_not_passes :
    Takable scaleEnv .x86 [.number (.finite (3 / 2))] [⟨false, ()⟩, ⟨true, ()⟩] ∧
    ¬ PassesNumbers scaleEnv .x86 [.number (.finite (3 / 2))]
      (call scaleEnv ⟨(), ()⟩ [⟨false, ()⟩, ⟨true, ()⟩] [.number (.finite (3 / 2))]) := by
  refine ⟨scale_takable (by simp), ?_⟩
  have hcall : call scaleEnv ⟨(), ()⟩ [⟨false, ()⟩, ⟨true, ()⟩] [.number (.finite (3 / 2))] =
      .ok ⟨⟨false, ()⟩, (), 1, [numberPair .I (.finite (3 / 2))]⟩ := rfl
  rw [hcall]
  rintro ⟨vals, hvals, hall⟩
  have hmarshal : MarshalEnv.x86.marshal 1 [(numberPair .I (.finite (3 / 2)) : JArg Unit)] =
      .ok [.number .I (passed .x86 .I (.finite (3 / 2)))] := rfl
  obtain rfl := Except.ok.inj (hmarshal.symm.trans hvals)
  obtain ⟨p, -, hval⟩ := hall 0 (3 / 2) rfl
  obtain ⟨-, hint⟩ := JValue.number.inj (Option.some.inj hval)
  obtain ⟨n, hn, -⟩ := (cast_floor_iff (show 31 ≤ 63 by decide)).mp hint
  have htwice : (3 : ℚ) = 2 * n := by
    rw [← hn]
    norm_num
  have : (3 : ℤ) = 2 * n := by exact_mod_cast htwice
  omega

/-- With `scale(double)` first it arrives. -/
theorem half_passes : PassesNumbers scaleEnv .x86 [.number (.finite (3 / 2))]
    (call scaleEnv ⟨(), ()⟩ [⟨true, ()⟩, ⟨false, ()⟩] [.number (.finite (3 / 2))]) := by
  refine (passesNumbers_iff scaleEnv .x86 ⟨(), ()⟩ [⟨true, ()⟩, ⟨false, ()⟩] [.number (.finite (3 / 2))]
    (scale_takable (by simp))).mpr ?_
  refine ⟨by decide, [], ⟨true, ()⟩, (['D'], .number (.finite (3 / 2))), _, rfl, fun r hr => by simp at hr, rfl, rfl,
    ?_⟩
  intro i q hi
  cases i with
  | succ i => simp at hi
  | zero =>
    obtain rfl : (3 / 2 : ℚ) = q := by simpa using hi
    exact ⟨.D, rfl, trivial, ⟨true, ()⟩, .finite (3 / 2), rfl, rfl⟩

end Exactness

end YellowTree
