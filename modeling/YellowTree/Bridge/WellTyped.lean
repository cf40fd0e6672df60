import YellowTree.Bridge.Arguments

/-!
# YellowTree.Bridge.WellTyped — calls whose arguments fit the parameters

`FitsParam` is what a user may pass for a parameter of a given type.  `jcallable_method:__call` has no branch for
numbers of type B, C and S, although `lj_call_method` reads them, and its splitter makes two parameters of an array of
arrays.

* `encodeArg_iff`: an argument that fits is accepted exactly when it is `Taken`.
* `invokes_iff`: a method is invoked with arguments that fit exactly when all of them are.
-/

namespace YellowTree

open CollectLoop

variable {Class Method Ref : Type}

/-! ## Arguments that fit -/

section Fits

/-- The classes that the parameter types denote.  Nothing but itself is assignable to an array of primitives. -/
structure TypeClasses (env : CallEnv Class Method Ref) where
  classOf : FieldType → Class
  className_primArray : ∀ p c, env.isAssignableFrom (classOf (.arr (.prim p))) c = true →
    env.jvm.className c = (FieldType.arr (.prim p)).descriptor

variable (env : CallEnv Class Method Ref)

/-- An argument of the kind that a parameter of type `t` asks for. -/
inductive FitsParam (types : TypeClasses env) : FieldType → Value Class Ref → Prop
  | boolean (b : Bool) : FitsParam types (.prim .Z) (.boolean b)
  | number (p : PrimType) (hp : p ≠ .Z) (n : LuaNumber) : FitsParam types (.prim p) (.number n)
  | string (t : FieldType) (ht : t.descriptor = stringType) (s : LuaString) : FitsParam types t (.string s)
  | object (t : FieldType) (ht : t.isReference = true) (raw : Ref) (c : Class)
      (hc : env.isAssignableFrom (types.classOf t) c = true) : FitsParam types t (.object raw c)
  | null (t : FieldType) (ht : t.isReference = true) : FitsParam types t .javaNull

/-- `jclass.find` finds a class that `c` is assignable to, where it is asked: not for an array of primitives, and not
for an array whose descriptor is the name of `c`. -/
def FindsFor (t : FieldType) (c : Class) : Prop :=
  (∃ p, t = .arr (.prim p)) ∨ ((∃ u, t = .arr u) ∧ env.jvm.className c = t.descriptor) ∨
    ∃ tc, env.jvm.findClass (lookupName t.descriptor) = some tc ∧ env.isAssignableFrom tc c = true

/-- The parameter is no byte, char or short and no array of arrays, and an object is compared with a class. -/
structure Taken (t : FieldType) (v : Value Class Ref) : Prop where
  flat : t.flat = true
  notSmall : t ≠ .prim .B ∧ t ≠ .prim .C ∧ t ≠ .prim .S
  finds : ∀ raw c, v = .object raw c → FindsFor env t c

/-- The call invokes `m`, and `lj_call_method` reads all arguments. -/
def Invokes (e : MarshalEnv) (object : Receiver Class Ref) (m : JmethodId Class Method)
    (args : List (Value Class Ref)) : Prop :=
  ∃ inv vals, call env object [m] args = .ok inv ∧ inv.method = m ∧ e.marshal inv.argc inv.jargs = .ok vals

end Fits

/-! ## One argument -/

section Argument

variable {env : CallEnv Class Method Ref} {types : TypeClasses env} {t : FieldType} {v : Value Class Ref}

theorem FitsParam.ne_nil (h : FitsParam env types t v) : v.isNil = false := by
  cases h <;> rfl

theorem take_one_of_flat (ht : t.isReference = true) (hflat : t.flat = true) :
    (∃ p, t = .arr (.prim p)) ∨ (t.descriptor.take 1 = ['L'] ∨ t.descriptor.take 2 = ['[', 'L']) := by
  cases t with
  | prim p => cases ht
  | cls n => exact Or.inr (Or.inl rfl)
  | arr t =>
    cases t with
    | prim p => exact Or.inl ⟨p, rfl⟩
    | cls n => exact Or.inr (Or.inr rfl)
    | arr t => cases hflat

theorem take_one_iff (ht : t.isReference = true) : t.descriptor.take 1 = ['['] ↔ ∃ u, t = .arr u := by
  cases t with
  | prim p => cases ht
  | cls n => exact ⟨fun h => by simp [FieldType.descriptor] at h, fun ⟨u, hu⟩ => by cases hu⟩
  | arr t => exact ⟨fun _ => ⟨t, rfl⟩, fun _ => rfl⟩

theorem notSmall_of_reference (ht : t.isReference = true) : t ≠ .prim .B ∧ t ≠ .prim .C ∧ t ≠ .prim .S := by
  refine ⟨?_, ?_, ?_⟩ <;> rintro rfl <;> cases ht

/-- An object that fits is accepted exactly when it is compared with a class it is assignable to. -/
theorem encodeArg_object (ht : t.isReference = true) (hflat : t.flat = true) {raw : Ref} {c : Class}
    (hc : env.isAssignableFrom (types.classOf t) c = true) :
    (∃ j, encodeArg env t.descriptor (.object raw c) = .ok (some j)) ↔ FindsFor env t c := by
  unfold FindsFor
  by_cases harr : t.descriptor.take 1 = ['['] ∧ env.jvm.className c = t.descriptor
  · rw [encodeArg, if_pos harr]
    exact iff_of_true ⟨_, rfl⟩ (Or.inr (Or.inl ⟨(take_one_iff ht).mp harr.1, harr.2⟩))
  rw [encodeArg, if_neg harr]
  rcases take_one_of_flat ht hflat with ⟨p, rfl⟩ | hcls
  · exact absurd ⟨rfl, types.className_primArray p c hc⟩ harr
  rw [if_pos hcls]
  have hprim : ¬ ∃ p, t = .arr (.prim p) := by
    rintro ⟨p, rfl⟩
    cases p <;> exact absurd hcls (by decide)
  cases hfind : env.jvm.findClass (lookupName t.descriptor) with
  | none =>
    refine iff_of_false ?_ ?_
    · rintro ⟨j, hj⟩
      cases hj
    · rintro (h | ⟨harr', hname⟩ | ⟨tc, htc, -⟩)
      · exact hprim h
      · exact harr ⟨(take_one_iff ht).mpr harr', hname⟩
      · cases htc
  | some tc =>
    dsimp only
    by_cases hassign : env.isAssignableFrom tc c = true
    · rw [if_pos hassign]
      exact iff_of_true ⟨_, rfl⟩ (Or.inr (Or.inr ⟨tc, rfl, hassign⟩))
    · rw [if_neg hassign]
      refine iff_of_false ?_ ?_
      · rintro ⟨j, hj⟩
        cases Except.ok.inj hj
      · rintro (h | ⟨harr', hname⟩ | ⟨tc', htc, hassign'⟩)
        · exact hprim h
        · exact harr ⟨(take_one_iff ht).mpr harr', hname⟩
        · obtain rfl := Option.some.inj htc
          exact hassign hassign'

/-- An argument that fits is accepted exactly when it is `Taken`. -/
theorem encodeArg_iff (h : FitsParam env types t v) (hflat : t.flat = true) :
    (∃ j, encodeArg env t.descriptor v = .ok (some j)) ↔ Taken env t v := by
  cases h with
  | boolean b => exact iff_of_true ⟨_, rfl⟩ ⟨rfl, by decide, fun raw c hobj => by cases hobj⟩
  | number p hp n =>
    have hobj : ∀ raw c, (Value.number n : Value Class Ref) = .object raw c → FindsFor env (.prim p) c :=
      fun raw c hobj => by cases hobj
    cases p with
    | Z => exact absurd rfl hp
    | B => exact iff_of_false (fun ⟨j, hj⟩ => by cases Except.ok.inj hj) fun htaken => htaken.notSmall.1 rfl
    | C => exact iff_of_false (fun ⟨j, hj⟩ => by cases Except.ok.inj hj) fun htaken => htaken.notSmall.2.1 rfl
    | S => exact iff_of_false (fun ⟨j, hj⟩ => by cases Except.ok.inj hj) fun htaken => htaken.notSmall.2.2 rfl
    | I => exact iff_of_true ⟨_, rfl⟩ ⟨rfl, by decide, hobj⟩
    | J => exact iff_of_true ⟨_, rfl⟩ ⟨rfl, by decide, hobj⟩
    | F => exact iff_of_true ⟨_, rfl⟩ ⟨rfl, by decide, hobj⟩
    | D => exact iff_of_true ⟨_, rfl⟩ ⟨rfl, by decide, hobj⟩
  | string t ht s =>
    have href := isReference_of_object (Or.inl ht)
    have hstring : encodeArg env t.descriptor (.string s) =
        .ok (some ⟨"STR".toList, .text (env.format (.string s))⟩) := by
      rw [encodeArg, encodeString, if_pos ht]
    exact iff_of_true ⟨_, hstring⟩ ⟨hflat, notSmall_of_reference href, fun raw c hobj => by cases hobj⟩
  | object t ht raw c hc =>
    rw [encodeArg_object ht hflat hc]
    constructor
    · intro hfinds
      refine ⟨hflat, notSmall_of_reference ht, fun raw' c' hobj => ?_⟩
      cases hobj
      exact hfinds
    · exact fun htaken => htaken.finds raw c rfl
  | null t ht => exact iff_of_true ⟨_, rfl⟩ ⟨hflat, notSmall_of_reference ht, fun raw c hobj => by cases hobj⟩

end Argument

/-! ## All arguments -/

section Invokes

variable {env : CallEnv Class Method Ref} {types : TypeClasses env} {e : MarshalEnv} {m : JmethodId Class Method}
  {args : List (Value Class Ref)}

/-- No argument that fits is nil, so that `#args` counts them all. -/
theorem luaLen_of_fits {params : List FieldType} (h : List.Forall₂ (FitsParam env types) params args) :
    luaLen args = params.length := by
  have hnotNil : ∀ v ∈ args, v.isNil = false := by
    induction h with
    | nil => exact fun v hv => by simp at hv
    | cons hfit hrest ih => exact List.forall_mem_cons.mpr ⟨hfit.ne_nil, ih⟩
  have hlast : (args.getLast?.getD .nil).isNil = true → args = [] := by
    intro hnil
    by_contra hne
    rw [List.getLast?_eq_some_getLast hne, Option.getD_some, hnotNil _ (List.getLast_mem hne)] at hnil
    cases hnil
  unfold luaLen
  split_ifs with hnil
  · have hnone := hlast hnil
    subst hnone
    rw [h.length_eq]
    rfl
  · exact h.length_eq.symm

/-- Where each argument fits its parameter, what is accepted and what is `Taken` is the same for all of them. -/
theorem forall_taken_iff {params : List FieldType} (h : List.Forall₂ (FitsParam env types) params args)
    (hflat : ∀ t ∈ params, t.flat = true) :
    (∀ p ∈ params.zip args, Taken env p.1 p.2) ↔
      ∀ p ∈ (params.map FieldType.descriptor).zip args, ∃ j, encodeArg env p.1 p.2 = .ok (some j) := by
  have hiff : ∀ p ∈ params.zip args,
      (∃ j, encodeArg env p.1.descriptor p.2 = .ok (some j)) ↔ Taken env p.1 p.2 := fun p hp =>
    encodeArg_iff ((List.forall₂_iff_zip.mp h).2 hp) (hflat p.1 (List.of_mem_zip hp).1)
  rw [List.zip_map_left]
  constructor
  · intro hall q hq
    obtain ⟨p, hp, rfl⟩ := List.mem_map.mp hq
    exact (hiff p hp).mpr (hall p hp)
  · intro hall p hp
    exact (hiff p hp).mp (hall _ (List.mem_map_of_mem hp))

/-- Without parameters the method is invoked by the first loop. -/
theorem invokes_nil (object : Receiver Class Ref) (hparams : (m.info env.jvm).params = [])
    (hzero : luaLen args = 0) : Invokes env e object m args ↔ ')' ∉ retText (m.info env.jvm).ret := by
  have hends : endsFirstLoop env.jvm m = true := by simp [endsFirstLoop, hparams]
  unfold Invokes
  rw [call_zero object [m] hzero, List.find?_cons_of_pos hends]
  dsimp only
  by_cases hparen : ')' ∈ retText (m.info env.jvm).ret
  · rw [if_pos hparen]
    refine iff_of_false ?_ fun hnot => hnot hparen
    rintro ⟨inv, vals, hok, -⟩
    cases hok
  · rw [if_neg hparen]
    exact iff_of_true ⟨_, [], rfl, rfl, rfl⟩ hparen

/-- With parameters, the method is invoked when every pair of parameter and argument makes one. -/
theorem invokes_cons (object : Receiver Class Ref) (hpos : 1 ≤ luaLen args)
    (hret : ')' ∉ retText (m.info env.jvm).ret) :
    Invokes env e object m args ↔ (piecesOf env m).length = luaLen args ∧
      ∀ p ∈ (piecesOf env m).zip args, ∃ j, encodeArg env p.1 p.2 = .ok (some j) := by
  have hrounds : (∀ r ∈ roundsOf env args m, ∃ j, roundPair env r = .ok (some j)) ↔
      ∀ p ∈ (piecesOf env m).zip args, ∃ j, encodeArg env p.1 p.2 = .ok (some j) := by
    rw [roundsOf, List.forall_mem_map]
    rfl
  rw [← hrounds, ← call_single_iff object hpos hret]
  constructor
  · rintro ⟨inv, vals, hcall, hm, -⟩
    exact ⟨inv, hcall, hm⟩
  · rintro ⟨inv, hcall, hm⟩
    obtain ⟨vals, hvals⟩ := exists_marshal_of_call e hcall
    exact ⟨inv, vals, hcall, hm, hvals⟩

/-- **Well-typed calls are accepted** exactly when each argument is `Taken`, and no class name in the return type has
a parenthesis. -/
theorem invokes_iff (env : CallEnv Class Method Ref) (types : TypeClasses env) (e : MarshalEnv)
    (object : Receiver Class Ref) (m : JmethodId Class Method) (args : List (Value Class Ref))
    (hfits : List.Forall₂ (FitsParam env types) (m.info env.jvm).params args) :
    Invokes env e object m args ↔
      ')' ∉ retText (m.info env.jvm).ret ∧ ∀ p ∈ (m.info env.jvm).params.zip args, Taken env p.1 p.2 := by
  have hlen := luaLen_of_fits hfits
  have hargs := hfits.length_eq
  by_cases hparams : (m.info env.jvm).params = []
  · rw [invokes_nil object hparams (by rw [hlen, hparams]; rfl), hparams]
    simp
  have hpos : 1 ≤ luaLen args := by
    have := List.length_pos_of_ne_nil hparams
    omega
  by_cases hret : ')' ∉ retText (m.info env.jvm).ret
  case neg =>
    refine iff_of_false (fun ⟨inv, vals, hok, _⟩ => ?_) fun hcond => hret hcond.1
    rw [call_of_paren object hpos fun hall => hret (hall m List.mem_cons_self)] at hok
    cases hok
  rw [and_iff_right hret, invokes_cons object hpos hret]
  -- a candidate with as many pieces as parameters is tried against its own parameters
  have hown : (∀ t ∈ (m.info env.jvm).params, t.flat = true) →
      piecesOf env m = (m.info env.jvm).params.map FieldType.descriptor := flatMap_pieces_of_flat
  constructor
  · rintro ⟨hpieces, hall⟩
    have hflat := flat_of_length_pieces (hpieces.trans hlen)
    rw [hown hflat] at hall
    exact (forall_taken_iff hfits hflat).mpr hall
  · intro hall
    have hflat : ∀ t ∈ (m.info env.jvm).params, t.flat = true := by
      intro t ht
      rw [← List.map_fst_zip (le_of_eq hargs)] at ht
      obtain ⟨p, hp, rfl⟩ := List.mem_map.mp ht
      exact (hall p hp).flat
    rw [hown hflat, List.length_map, hlen]
    exact ⟨rfl, (forall_taken_iff hfits hflat).mp hall⟩

/-- A class with one method, `write(t)`. -/
def writeEnv (t : FieldType) : CallEnv Unit Unit Unit where
  jvm := {
    className := fun _ => "Writer".toList
    declaringClass := fun _ => ()
    info := fun _ => ⟨"write".toList, [t], none, false, none⟩
    findClass := fun _ => some ()
    getMethodID := fun _ _ _ => none
    getStaticMethodID := fun _ _ _ => none }
  isAssignableFrom := fun _ _ => false
  format := fun _ => []
  objectRaw := fun _ => ()

def writeTypes (t : FieldType) : TypeClasses (writeEnv t) := ⟨fun _ => (), fun _ _ h => by cases h⟩

/-- `write(byte)` cannot be called with 1. -/
theorem byte_not_invokes :
    List.Forall₂ (FitsParam (writeEnv (.prim .B)) (writeTypes (.prim .B))) [.prim .B] [.number 1] ∧
    ¬ Invokes (writeEnv (.prim .B)) .x86 ⟨(), ()⟩ ⟨(), ()⟩ [.number 1] := by
  refine ⟨.cons (.number .B (by decide) 1) .nil, ?_⟩
  rintro ⟨inv, vals, hcall, -⟩
  cases hcall

/-- `write(int)` can. -/
theorem int_invokes : Invokes (writeEnv (.prim .I)) .x86 ⟨(), ()⟩ ⟨(), ()⟩ [.number 1] := by
  have hfits : List.Forall₂ (FitsParam (writeEnv (.prim .I)) (writeTypes (.prim .I))) [.prim .I] [.number 1] :=
    .cons (.number .I (by decide) 1) .nil
  refine (invokes_iff (writeEnv (.prim .I)) (writeTypes (.prim .I)) .x86 ⟨(), ()⟩ ⟨(), ()⟩ [.number 1] hfits).mpr
    ⟨by decide, fun p hp => ?_⟩
  obtain rfl : p = (.prim .I, .number 1) := List.mem_singleton.mp hp
  exact ⟨rfl, by decide, fun raw c hobj => by cases hobj⟩

end Invokes

end YellowTree
