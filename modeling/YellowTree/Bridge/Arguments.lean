import YellowTree.Bridge.ArrayElements
import YellowTree.Bridge.Constructors
import YellowTree.Lib.CollectLoop

/-!
# YellowTree.Bridge.Arguments — from the loops of `jcallable_method:__call` to the `jvalue`s of `lj_call_method`

The nested loops over candidates and parameters are one loop over `rounds`, which collects the pairs
(`tryMethods_eq_collect`).  `marshal` is the first half of `lj_call_method`: it reads the pairs and stores each value
in the member of a `jvalue` that the tag names.

* `call_eq_ok_iff`: which candidate is invoked, and with which pairs; `call_first` and `call_single_iff` are
  the plain cases.
* `exists_marshal_of_call`: every pair that `jcallable_method:__call` makes is one that `lj_call_method` can read.
-/

namespace YellowTree

open CollectLoop

variable {Class Method Ref : Type}

/-! ## The loops as one loop -/

section Rounds

variable (env : CallEnv Class Method Ref) (args : List (Value Class Ref))

/-- A candidate with the text of one of its parameters and the argument in that place. -/
abbrev Round (Class Method Ref : Type) := JmethodId Class Method × LuaString × Value Class Ref

/-- The rounds of the inner loop for one candidate. -/
def roundsOf (m : JmethodId Class Method) : List (Round Class Method Ref) := ((piecesOf env m).zip args).map (m, ·)

/-- The rounds for the candidates `ms`, one after the other. -/
def rounds (ms : List (JmethodId Class Method)) : List (Round Class Method Ref) := ms.flatMap (roundsOf env args)

/-- The body of the inner loop. -/
def roundPair (r : Round Class Method Ref) : Except LuaError (Option (JArg Ref)) := encodeArg env r.2.1 r.2.2

variable {env args}

theorem tryParams_eq_collect {argc : ℕ} (m : JmethodId Class Method) :
    ∀ (ps : List (LuaString × Value Class Ref)) (jargs : List (JArg Ref)),
    tryParams env argc ps jargs =
      match collect (roundPair env) argc (ps.map (m, ·)) jargs with
      | .error e => .error e
      | .ok none => .ok (false, jargs ++ given (roundPair env) (ps.map (m, ·)))
      | .ok (some x) => .ok (true, x.2)
  | [], jargs => by simp [tryParams, collect, given]
  | (t, argi) :: ps, jargs => by
    have hround : roundPair env (m, t, argi) = encodeArg env t argi := rfl
    cases henc : encodeArg env t argi with
    | error e => rw [tryParams, henc, List.map_cons, collect_cons_error (hround.trans henc)]
    | ok r =>
      by_cases hn : (jargs ++ r.toList).length = argc
      · rw [tryParams, henc, List.map_cons, collect_cons_end (hround.trans henc) _ hn]
        dsimp only
        rw [if_pos (by omega)]
      · rw [List.map_cons, collect_cons (hround.trans henc) _ hn, given_cons (hround.trans henc), tryParams, henc]
        dsimp only
        rw [if_neg (by omega), tryParams_eq_collect m ps, List.append_assoc]

theorem tryMethods_eq_collect {argc : ℕ} : ∀ (ms : List (JmethodId Class Method)) (jargs : List (JArg Ref)),
    (∀ m ∈ ms, atypes env.jvm m = piecesOf env m) →
    tryMethods env argc args ms jargs =
      match collect (roundPair env) argc (rounds env args ms) jargs with
      | .error e => .error e
      | .ok none => .ok none
      | .ok (some x) => .ok (some (x.1.1, x.2))
  | [], jargs, _ => rfl
  | m :: ms, jargs, hat => by
    have hrounds : rounds env args (m :: ms) = ((piecesOf env m).zip args).map (m, ·) ++ rounds env args ms := rfl
    have hms : ∀ m' ∈ ms, atypes env.jvm m' = piecesOf env m' := fun m' hm' => hat m' (List.mem_cons_of_mem _ hm')
    rw [tryMethods, hat m List.mem_cons_self, tryParams_eq_collect m, hrounds, collect_append]
    cases hcollect : collect (roundPair env) argc (((piecesOf env m).zip args).map (m, ·)) jargs with
    | error e => rfl
    | ok x =>
      cases x with
      | none => exact tryMethods_eq_collect ms _ hms
      | some x =>
        obtain ⟨p, -, hp⟩ := List.mem_map.mp (mem_of_collect hcollect)
        simp only [← hp]

/-- **Which candidate is invoked**, and with which pairs: a call is made in the round in which the last of `argc` pairs
is made, and not before a class is not found. -/
theorem call_eq_ok_iff {possible : List (JmethodId Class Method)} {inv : Invocation Class Method Ref}
    (object : Receiver Class Ref) (hpos : 1 ≤ luaLen args)
    (hret : ∀ m ∈ possible, ')' ∉ retText (m.info env.jvm).ret) :
    call env object possible args = .ok inv ↔
      ∃ pre m p post j, rounds env args (tried env args possible) = pre ++ (m, p) :: post ∧
        (∀ r ∈ pre, ∃ j?, roundPair env r = .ok j?) ∧ encodeArg env p.1 p.2 = .ok (some j) ∧
        (given (roundPair env) pre ++ [j]).length = luaLen args ∧
        inv = ⟨m, receiver env object m, luaLen args, given (roundPair env) pre ++ [j]⟩ := by
  have hcall := call_pos object hpos possible hret
  have hat : ∀ m ∈ tried env args possible, atypes env.jvm m = piecesOf env m := by
    intro m hm
    exact atypes_eq (hret m (List.mem_filter.mp hm).1)
  have htried : (possible.filter fun m => (piecesOf env m).length == luaLen args) = tried env args possible := rfl
  rw [htried, tryMethods_eq_collect _ _ hat] at hcall
  rw [hcall]
  constructor
  · intro h
    cases hcollect : collect (roundPair env) (luaLen args) (rounds env args (tried env args possible)) [] with
    | error e => rw [hcollect] at h; cases h
    | ok x =>
      cases x with
      | none => rw [hcollect] at h; cases h
      | some x =>
        rw [hcollect] at h
        obtain rfl := Except.ok.inj h
        obtain ⟨⟨m, p⟩, js⟩ := x
        obtain ⟨pre, post, j, hsplit, hpre, hj, hjs, hlen⟩ := (collect_eq_some_iff hpos).mp hcollect
        rw [List.nil_append] at hjs
        subst hjs
        exact ⟨pre, m, p, post, j, hsplit, hpre, hj, hlen, rfl⟩
  · rintro ⟨pre, m, p, post, j, hsplit, hpre, hj, hlen, rfl⟩
    have hcollect : collect (roundPair env) (luaLen args) (rounds env args (tried env args possible)) [] =
        .ok (some ((m, p), given (roundPair env) pre ++ [j])) :=
      (collect_eq_some_iff hpos).mpr ⟨pre, post, j, hsplit, hpre, hj, rfl, hlen⟩
    rw [hcollect]

theorem length_roundsOf {m : JmethodId Class Method} (hpieces : (piecesOf env m).length = luaLen args) :
    (roundsOf env args m).length = luaLen args := by
  have hle := luaLen_le args
  rw [roundsOf, List.length_map, List.length_zip]
  omega

/-- A tried candidate that accepts all arguments makes a pair in each of its rounds. -/
theorem roundsOf_of_accepts {m : JmethodId Class Method} (hpieces : (piecesOf env m).length = luaLen args)
    (haccepts : accepts env args m = true) : ∀ r ∈ roundsOf env args m, ∃ j, roundPair env r = .ok (some j) := by
  have hmem : m ∈ tried env args [m] := List.mem_filter.mpr ⟨List.mem_singleton_self m, beq_iff_eq.mpr hpieces⟩
  rw [← length_given, length_roundsOf hpieces, roundsOf, given_map]
  exact (findsAll_of_accepts hmem haccepts).2

/-- **The first candidate that makes a pair in each of its rounds** is invoked when the ones before it make none. -/
theorem call_first {pre post : List (JmethodId Class Method)} {m : JmethodId Class Method}
    (object : Receiver Class Ref) (hpos : 1 ≤ luaLen args)
    (hret : ∀ m' ∈ pre ++ m :: post, ')' ∉ retText (m'.info env.jvm).ret)
    (hpre : ∀ r ∈ rounds env args (tried env args pre), roundPair env r = .ok none)
    (hpieces : (piecesOf env m).length = luaLen args)
    (hall : ∀ r ∈ roundsOf env args m, ∃ j, roundPair env r = .ok (some j)) :
    call env object (pre ++ m :: post) args =
      .ok ⟨m, receiver env object m, luaLen args, given (roundPair env) (roundsOf env args m)⟩ := by
  have hlen := length_roundsOf hpieces
  have hne : roundsOf env args m ≠ [] := List.ne_nil_of_length_pos (by omega)
  have hnone : given (roundPair env) (rounds env args (tried env args pre)) = [] := by
    refine List.filterMap_eq_nil_iff.mpr fun r hr => ?_
    rw [hpre r hr]
    rfl
  -- the call is made in the last round of `m`
  obtain ⟨p, -, hp⟩ := List.mem_map.mp (List.getLast_mem hne)
  obtain ⟨j, hj⟩ := hall _ (List.getLast_mem hne)
  rw [← hp] at hj
  have hsplit : roundsOf env args m = (roundsOf env args m).dropLast ++ [(m, p)] := by
    rw [hp]
    exact (List.dropLast_append_getLast hne).symm
  have hrounds : rounds env args (tried env args (pre ++ m :: post)) = (rounds env args (tried env args pre) ++
      (roundsOf env args m).dropLast) ++ (m, p) :: rounds env args (tried env args post) := by
    have htried : tried env args (pre ++ m :: post) = tried env args pre ++ m :: tried env args post := by
      simp [tried, hpieces]
    rw [htried, rounds, List.flatMap_append, List.flatMap_cons]
    conv_lhs => rw [hsplit]
    simp only [List.append_assoc, List.singleton_append]
    rfl
  have hjargs : given (roundPair env) (rounds env args (tried env args pre) ++ (roundsOf env args m).dropLast) ++ [j] =
      given (roundPair env) (roundsOf env args m) := by
    rw [given_append, hnone, List.nil_append]
    conv_rhs => rw [hsplit]
    exact (given_concat hj _).symm
  refine (call_eq_ok_iff object hpos hret).mpr ⟨_, m, p, _, j, hrounds, ?_, hj, ?_, ?_⟩
  · intro r hr
    rcases List.mem_append.mp hr with hr | hr
    · exact ⟨none, hpre r hr⟩
    · obtain ⟨j', hj'⟩ := hall r (List.dropLast_subset _ hr)
      exact ⟨some j', hj'⟩
  · rw [hjargs, length_given.mpr hall, hlen]
  · rw [hjargs]

/-- A single candidate is invoked exactly when it is tried and makes a pair in each of its rounds. -/
theorem call_single_iff {m : JmethodId Class Method} (object : Receiver Class Ref) (hpos : 1 ≤ luaLen args)
    (hret : ')' ∉ retText (m.info env.jvm).ret) :
    (∃ inv, call env object [m] args = .ok inv ∧ inv.method = m) ↔ (piecesOf env m).length = luaLen args ∧
      ∀ r ∈ roundsOf env args m, ∃ j, roundPair env r = .ok (some j) := by
  have hretAll : ∀ m' ∈ [m], ')' ∉ retText (m'.info env.jvm).ret := List.forall_mem_singleton.mpr hret
  constructor
  · rintro ⟨inv, hcall, -⟩
    obtain ⟨pre, m', p, post, j, hsplit, hpre, hj, hjs, -⟩ := (call_eq_ok_iff object hpos hretAll).mp hcall
    have hpieces : (piecesOf env m).length = luaLen args := by
      by_contra hne
      have htried : tried env args [m] = [] := by simp [tried, hne]
      rw [htried] at hsplit
      simp [rounds] at hsplit
    have hrounds : rounds env args (tried env args [m]) = roundsOf env args m := by
      have htried : tried env args [m] = [m] := by simp [tried, hpieces]
      rw [htried, rounds, List.flatMap_cons, List.flatMap_nil, List.append_nil]
    have hcollect : collect (roundPair env) (luaLen args) (roundsOf env args m) [] =
        .ok (some ((m', p), given (roundPair env) pre ++ [j])) :=
      (collect_eq_some_iff hpos).mpr ⟨pre, post, j, hrounds.symm.trans hsplit, hpre, hj, rfl, hjs⟩
    exact ⟨hpieces, all_of_collect hpos (by simpa using length_roundsOf hpieces) hcollect⟩
  · rintro ⟨hpieces, hall⟩
    have hnone : ∀ r ∈ rounds env args (tried env args []), roundPair env r = .ok none := fun r hr => by cases hr
    have hcall : call env object ([] ++ [m]) args = _ := call_first object hpos hretAll hnone hpieces hall
    exact ⟨_, hcall, rfl⟩

theorem exists_roundPair_iff {r : Round Class Method Ref} :
    (∃ j?, roundPair env r = .ok j?) ↔ ¬ MissingClass env r.2 := by
  rcases encodeArg_cases env r.2.1 r.2.2 with ⟨hmiss, herror⟩ | ⟨hfound, hok⟩
  · exact iff_of_false (fun ⟨j?, hj⟩ => by cases herror.symm.trans hj) fun hnot => hnot hmiss
  · exact iff_of_true hok hfound

theorem gives_roundPair_iff {r : Round Class Method Ref} :
    gives (roundPair env) r = true ↔ ∃ j, encodeArg env r.2.1 r.2.2 = .ok (some j) := by
  unfold gives roundPair
  rcases encodeArg env r.2.1 r.2.2 with err | _ | j <;> simp [Except.toOption]

end Rounds

/-! ## `lj_call_method` reads the pairs -/

section Marshal

/-- What is in a `jvalue`: a reference, a new String, or the member of a primitive type. -/
inductive JValue (Ref : Type) where
  | reference (r : Option Ref)
  | string (s : JavaString)
  | boolean (b : Bool)
  | number (p : PrimType) (n : LuaNumber)
  deriving DecidableEq

/-- The conversions of the Lua API and of C, and NewStringUTF. -/
structure MarshalEnv where
  cast : IntegerCast
  toFloat : LuaNumber → LuaNumber
  tonumber : LuaString → Option LuaNumber
  tostring : LuaNumber → LuaString
  jni : Jni

namespace MarshalEnv

/-- x86-64, with strings that are no numerals. -/
def x86 : MarshalEnv := ⟨.x86, id, fun _ => none, fun _ => [], .lenient⟩

variable (e : MarshalEnv)

/-- `luaL_checknumber`, on the second half of a pair. -/
def checkNumber : JVal Ref → Except LuaError LuaNumber
  | .number n => .ok n
  | .text s =>
    match e.tonumber s with
    | some n => .ok n
    | none => .error (.message "number expected, got string")
  | _ => .error (.message "number expected")

/-- `luaL_checkinteger`. -/
def checkInteger (v : JVal Ref) : Except LuaError ℤ := (e.checkNumber v).map e.cast.cast

/-- `luaL_checkstring`. -/
def checkString : JVal Ref → Except LuaError LuaString
  | .text s => .ok s
  | .number n => .ok (e.tostring n)
  | _ => .error (.message "string expected")

/-- `luaL_checkudata(L, n, "jobject")`. -/
def checkJobject : JVal Ref → Except LuaError Ref
  | .userdata r => .ok r
  | _ => .error (.message "jobject expected")

/-- `luaL_checktype(L, n, LUA_TBOOLEAN)`. -/
def checkBoolean : JVal Ref → Except LuaError Bool
  | .boolean b => .ok b
  | _ => .error (.message "boolean expected")

/-- An integer member. -/
def integerMember (p : PrimType) (v : JVal Ref) : Except LuaError (JValue Ref) :=
  (e.checkInteger v).map fun n => .number p (.finite (narrow p n))

/-- The tests of the tag, in the order of the source; the text of the last error ends with the tag. -/
def marshalArg (arg : JArg Ref) : Except LuaError (JValue Ref) :=
  if arg.tag = ['V'] then .ok (.reference none)
  else if arg.tag.head? = some 'L' ∨ arg.tag.head? = some '[' then
    (checkJobject arg.val).map fun r => .reference (some r)
  else if arg.tag = "STR".toList then
    (e.checkString arg.val).map fun s => .string (e.jni.newStringUTF (bytes (cString s)))
  else if arg.tag = ['Z'] then (checkBoolean arg.val).map .boolean
  else if arg.tag = ['B'] then e.integerMember .B arg.val
  else if arg.tag = ['C'] then e.integerMember .C arg.val
  else if arg.tag = ['S'] then e.integerMember .S arg.val
  else if arg.tag = ['I'] then e.integerMember .I arg.val
  else if arg.tag = ['J'] then e.integerMember .J arg.val
  else if arg.tag = ['F'] then (e.checkNumber arg.val).map fun n => .number .F (e.toFloat n)
  else if arg.tag = ['D'] then (e.checkNumber arg.val).map (.number .D)
  else .error (.message "Unknown argument type")

/-- The loop over `argcount` pairs. -/
def marshal : ℕ → List (JArg Ref) → Except LuaError (List (JValue Ref))
  | 0, _ => .ok []
  | _ + 1, [] => .error (.message "string expected, got no value")
  | argcount + 1, arg :: args => do
    let v ← e.marshalArg arg
    let vs ← marshal argcount args
    return v :: vs

variable {e}

theorem marshal_iff : ∀ {jargs : List (JArg Ref)} {vals : List (JValue Ref)},
    e.marshal jargs.length jargs = .ok vals ↔ List.Forall₂ (fun arg val => e.marshalArg arg = .ok val) jargs vals
  | [], vals => by
    rw [List.forall₂_nil_left_iff]
    exact ⟨fun h => (Except.ok.inj h).symm, fun h => by rw [h]; rfl⟩
  | arg :: jargs, vals => by
    rw [List.length_cons, marshal, List.forall₂_cons_left_iff]
    constructor
    · intro h
      cases harg : e.marshalArg arg with
      | error err => rw [harg] at h; cases h
      | ok val =>
        cases hrest : e.marshal jargs.length jargs with
        | error err => rw [harg, hrest] at h; cases h
        | ok rest =>
          rw [harg, hrest] at h
          exact ⟨val, rest, rfl, marshal_iff.mp hrest, (Except.ok.inj h).symm⟩
    · rintro ⟨val, rest, harg, hrest, rfl⟩
      rw [harg, marshal_iff.mpr hrest]
      rfl

/-- A number for a parameter of type I, J, F or D. -/
def numberPair (p : PrimType) (n : LuaNumber) : JArg Ref :=
  ⟨[p.char], .number (if p = .I ∨ p = .J then n.floor else n)⟩

/-- What Java gets for a number at a parameter of type I, J, F or D. -/
def passed (e : MarshalEnv) (p : PrimType) (n : LuaNumber) : LuaNumber :=
  match p with
  | .F => e.toFloat n
  | .D => n
  | p => .finite (narrow p (e.cast.cast n.floor))

theorem marshalArg_number {p : PrimType} (hp : p = .I ∨ p = .J ∨ p = .F ∨ p = .D) (n : LuaNumber) :
    e.marshalArg (numberPair p n : JArg Ref) = .ok (.number p (passed e p n)) := by
  rcases hp with rfl | rfl | rfl | rfl <;> rfl

/-- The pairs that are made: a null, a text for a String, a boolean, a number or an object. -/
theorem encodeArg_eq_some {env : CallEnv Class Method Ref} {t : LuaString} {v : Value Class Ref} {j : JArg Ref}
    (h : encodeArg env t v = .ok (some j)) :
    j = ⟨['V'], .text "NULL".toList⟩ ∨ (∃ text, j = ⟨"STR".toList, .text text⟩) ∨ (∃ b, j = ⟨['Z'], .boolean b⟩) ∨
      (∃ p n, (p = .I ∨ p = .J ∨ p = .F ∨ p = .D) ∧ t = [p.char] ∧ v = .number n ∧ j = numberPair p n) ∨
      ∃ tag raw, (tag = ['L'] ∨ tag = ['[']) ∧ j = ⟨tag, .userdata raw⟩ := by
  have hstring : ∀ {w : Value Class Ref}, encodeString env t w = some j → ∃ text, j = ⟨"STR".toList, .text text⟩ := by
    intro w hw
    unfold encodeString at hw
    split_ifs at hw
    exact ⟨_, (Option.some.inj hw).symm⟩
  cases v with
  | javaNull => exact Or.inl (Option.some.inj (Except.ok.inj h)).symm
  | boolean b =>
    have h := Except.ok.inj h
    split_ifs at h with hZ
    · obtain rfl := Option.some.inj h
      exact Or.inr (Or.inr (Or.inl ⟨b, by rw [hZ]⟩))
    · exact Or.inr (Or.inl (hstring h))
  | number n =>
    have h := Except.ok.inj h
    split_ifs at h with hint hfloat
    · obtain rfl := Option.some.inj h
      rcases hint with rfl | rfl
      · exact Or.inr (Or.inr (Or.inr (Or.inl ⟨.I, n, by decide, rfl, rfl, rfl⟩)))
      · exact Or.inr (Or.inr (Or.inr (Or.inl ⟨.J, n, by decide, rfl, rfl, rfl⟩)))
    · obtain rfl := Option.some.inj h
      rcases hfloat with rfl | rfl
      · exact Or.inr (Or.inr (Or.inr (Or.inl ⟨.F, n, by decide, rfl, rfl, rfl⟩)))
      · exact Or.inr (Or.inr (Or.inr (Or.inl ⟨.D, n, by decide, rfl, rfl, rfl⟩)))
    · exact Or.inr (Or.inl (hstring h))
  | object raw c =>
    refine Or.inr (Or.inr (Or.inr (Or.inr ?_)))
    rw [encodeArg] at h
    split_ifs at h with harr hcls
    · exact ⟨['['], raw, Or.inr rfl, (Option.some.inj (Except.ok.inj h)).symm⟩
    · cases hfind : env.jvm.findClass (lookupName t) with
      | none => rw [hfind] at h; cases h
      | some tc =>
        rw [hfind] at h
        have h := Except.ok.inj h
        split_ifs at h
        exact ⟨['L'], raw, Or.inl rfl, (Option.some.inj h).symm⟩
    · cases Except.ok.inj h
  | nil => exact Or.inr (Or.inl (hstring (Except.ok.inj h)))
  | string s => exact Or.inr (Or.inl (hstring (Except.ok.inj h)))
  | function f => exact Or.inr (Or.inl (hstring (Except.ok.inj h)))
  | table i => cases h
  | userdata i => cases h

/-- **Every pair that is made can be read.** -/
theorem marshalArg_encodeArg {env : CallEnv Class Method Ref} {t : LuaString} {v : Value Class Ref} {j : JArg Ref}
    (h : encodeArg env t v = .ok (some j)) : ∃ val, e.marshalArg j = .ok val := by
  rcases encodeArg_eq_some h with rfl | ⟨text, rfl⟩ | ⟨b, rfl⟩ | ⟨p, n, hp, -, -, rfl⟩ | ⟨tag, raw, htag, rfl⟩
  · exact ⟨_, rfl⟩
  · exact ⟨_, rfl⟩
  · exact ⟨_, rfl⟩
  · exact ⟨_, marshalArg_number hp n⟩
  · rcases htag with rfl | rfl
    · exact ⟨_, rfl⟩
    · exact ⟨_, rfl⟩

/-- Pairs that can be read one by one can be read in a row. -/
theorem exists_marshal : ∀ {jargs : List (JArg Ref)}, (∀ arg ∈ jargs, ∃ val, e.marshalArg arg = .ok val) →
    ∃ vals, e.marshal jargs.length jargs = .ok vals
  | [], _ => ⟨[], rfl⟩
  | arg :: jargs, hall => by
    obtain ⟨val, hval⟩ := hall arg List.mem_cons_self
    obtain ⟨vals, hvals⟩ := exists_marshal fun arg' harg' => hall arg' (List.mem_cons_of_mem _ harg')
    exact ⟨val :: vals, marshal_iff.mpr (.cons hval (marshal_iff.mp hvals))⟩

end MarshalEnv

/-- `lj_call_method` reads the arguments of every call. -/
theorem exists_marshal_of_call {env : CallEnv Class Method Ref} {object : Receiver Class Ref}
    {possible : List (JmethodId Class Method)} {args : List (Value Class Ref)} {inv : Invocation Class Method Ref}
    (e : MarshalEnv) (h : call env object possible args = .ok inv) :
    ∃ vals, e.marshal inv.argc inv.jargs = .ok vals := by
  by_cases hzero : luaLen args = 0
  · rw [call_zero object possible hzero] at h
    have hargc : inv.argc = 0 := by
      cases hfind : possible.find? (endsFirstLoop env.jvm) with
      | none => rw [hfind] at h; cases h
      | some m =>
        rw [hfind] at h
        dsimp only at h
        split_ifs at h
        obtain rfl := Except.ok.inj h
        rfl
    rw [hargc]
    exact ⟨[], rfl⟩
  have hpos : 1 ≤ luaLen args := Nat.one_le_iff_ne_zero.mpr hzero
  by_cases hret : ∀ m ∈ possible, ')' ∉ retText (m.info env.jvm).ret
  case neg =>
    rw [call_of_paren object hpos hret] at h
    cases h
  obtain ⟨pre, m, p, post, j, -, -, hj, hlen, rfl⟩ := (call_eq_ok_iff object hpos hret).mp h
  rw [← hlen]
  refine MarshalEnv.exists_marshal fun arg harg => ?_
  rcases List.mem_append.mp harg with harg | harg
  · obtain ⟨r, hr⟩ := mem_given.mp harg
    exact MarshalEnv.marshalArg_encodeArg hr.2
  · obtain rfl := List.mem_singleton.mp harg
    exact MarshalEnv.marshalArg_encodeArg hj

end Marshal

end YellowTree
