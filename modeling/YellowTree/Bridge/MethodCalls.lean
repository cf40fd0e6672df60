import YellowTree.Bridge.Numbers
import YellowTree.Bridge.ReturnValues
import YellowTree.Bridge.Visibility
import YellowTree.Bridge.WellTyped

/-!
# YellowTree.Bridge.MethodCalls — `o.n(..)` from Lua to Java and back

`callMember` is the whole way of a call: the look-up of the name, the choice of a method, the pairs, the `jvalue`s, the
JNI call and the Lua value that is made of the result.  The way works when each of its parts does.

* `marshal_eq_iff`: accepted arguments reach Java as the values they stand for exactly when each number is one of its
  parameter's type.
* `calls_iff`: the first candidate of its arity is invoked exactly when it accepts all arguments.
* `callMember_iff`: a call is the call in Java exactly when the method is not hidden, its arguments are accepted, its
  numbers are representable and its result can be decoded.
-/

namespace YellowTree

open CollectLoop MarshalEnv ModifiedUtf8

variable {Class Method Field Ref : Type}

/-! ## The whole way -/

section Embedding

/-- A call of JNI: a method, its receiver and the arguments. -/
structure JniInvocation (Method Ref : Type) where
  method : Method
  receiver : Ref
  vals : List (JValue Ref)

variable (h : Hierarchy Class Method Field Ref) (rawKey : BridgeValue Class Ref → LuaString → Bool) (e : MarshalEnv)
  (env : ReturnEnv Class Ref) (execute : JniInvocation Method Ref → JavaResult Class Ref)

/-- The call of a callable method, where `execute` is what the methods do: the call of JNI that is made, and the Lua
value. -/
def callMethods (object : Receiver Class Ref) (possible : List (JmethodId Class Method))
    (args : List (Value Class Ref)) : Outcome (JniInvocation Method Ref × ReturnValue Class Ref) :=
  match call h.toCallEnv object possible args with
  | .error err => .error err
  | .ok inv =>
    match e.marshal inv.argc inv.jargs with
    | .error err => .error err
    | .ok vals =>
      let made := ⟨inv.method.methodIdRaw, inv.receiver, vals⟩
      (methodCall env (inv.method.info h.jvm) (execute made)).bind fun r => .ok (made, r)

/-- `v.key(args)`; what is no callable method is no call of Java. -/
def callMember (v : BridgeValue Class Ref) (key : LuaString) (args : List (Value Class Ref)) :
    Outcome (JniInvocation Method Ref × ReturnValue Class Ref) :=
  match index h rawKey v key with
  | .callable _ object possible => callMethods h e env execute object possible args
  | _ => .undefined

end Embedding

/-! ## What an argument stands for -/

section Spec

/-- The Java value that a Lua value stands for at a parameter; a text has only characters of one UTF-16 unit other
than 0. -/
inductive StandsFor (env : CallEnv Class Method Ref) (types : TypeClasses env) :
    FieldType → Value Class Ref → JValue Ref → Prop
  | boolean (b : Bool) : StandsFor env types (.prim .Z) (.boolean b) (.boolean b)
  | number (p : PrimType) (hp : p ≠ .Z) (n : LuaNumber) : StandsFor env types (.prim p) (.number n) (.number p n)
  | string (t : FieldType) (ht : t.descriptor = stringType) (text : List Char) (hplain : ∀ c ∈ text, Plain c) :
      StandsFor env types t (.string (utf8 text)) (.string (text.flatMap utf16))
  | object (t : FieldType) (ht : t.isReference = true) (raw : Ref) (c : Class)
      (hc : env.isAssignableFrom (types.classOf t) c = true) :
      StandsFor env types t (.object raw c) (.reference (some raw))
  | null (t : FieldType) (ht : t.isReference = true) : StandsFor env types t .javaNull (.reference none)

/-- `n` is a value of type `p`. -/
def HasNumber (e : MarshalEnv) (p : PrimType) (n : LuaNumber) : Prop :=
  match p with
  | .F => e.toFloat n = n
  | .D => True
  | p => ∃ q, n = .finite q ∧ Represents p q

/-- Where the argument is a number, it is a value of the parameter's type. -/
def NumberFits (e : MarshalEnv) (t : FieldType) (v : Value Class Ref) : Prop :=
  ∀ p n, t = .prim p → v = .number n → HasNumber e p n

/-- The call `raw.key(xs)` of the instance method `m`: of the methods that are found for the class of the object, `m`
is the first that is split into as many parameters as there are arguments, and these stand for `xs`.  No class name in
a return type has a parenthesis. -/
structure JavaCall (h : Hierarchy Class Method Field Ref) (types : TypeClasses h.toCallEnv) (raw : Ref)
    (key : LuaString) (args : List (Value Class Ref)) (m : JmethodId Class Method) (xs : List (JValue Ref)) :
    Prop where
  found : ∃ pre post, findMethods h (h.classOf raw) key = pre ++ m :: post ∧
    (∀ m' ∈ pre, (piecesOf h.toCallEnv m').length ≠ args.length) ∧ ∀ m' ∈ post, m'.methodIdRaw ≠ m.methodIdRaw
  returnTypes : ∀ m' ∈ findMethods h (h.classOf raw) key, ')' ∉ retText (m'.info h.jvm).ret
  kind : methodKind h m.methodIdRaw = .instanceMember
  arity : (m.info h.jvm).params.length = args.length
  standFor : List.Forall₂ (fun p x => StandsFor h.toCallEnv types p.1 p.2 x) ((m.info h.jvm).params.zip args) xs

end Spec

/-! ## One argument -/

section Argument

variable {env : CallEnv Class Method Ref} {types : TypeClasses env} {e : MarshalEnv} {t : FieldType}
  {v : Value Class Ref} {x : JValue Ref}

theorem StandsFor.fits (h : StandsFor env types t v x) : FitsParam env types t v := by
  cases h with
  | boolean b => exact .boolean b
  | number p hp n => exact .number p hp n
  | string t ht text => exact .string t ht _
  | object t ht raw c hc => exact .object t ht raw c hc
  | null t ht => exact .null t ht

/-- A number reaches Java unchanged exactly when it is a value of the type. -/
theorem passed_eq_iff {p : PrimType} (hp : p = .I ∨ p = .J ∨ p = .F ∨ p = .D) (n : LuaNumber) :
    passed e p n = n ↔ HasNumber e p n := by
  have hinteger : ∀ k : ℤ, LuaNumber.finite k = n → ∃ q, n = .finite q := fun k hk => ⟨k, hk.symm⟩
  rcases hp with rfl | rfl | rfl | rfl
  · constructor
    · intro heq
      obtain ⟨q, rfl⟩ := hinteger _ heq
      exact ⟨q, rfl, (cast_floor_iff (k := 31) (by decide)).mp heq⟩
    · rintro ⟨q, rfl, hq⟩
      exact (cast_floor_iff (k := 31) (by decide)).mpr hq
  · constructor
    · intro heq
      obtain ⟨q, rfl⟩ := hinteger _ heq
      exact ⟨q, rfl, (cast_floor_iff (k := 63) (by decide)).mp heq⟩
    · rintro ⟨q, rfl, hq⟩
      exact (cast_floor_iff (k := 63) (by decide)).mpr hq
  · exact Iff.rfl
  · exact iff_of_true rfl trivial

/-- The pair of an object. -/
theorem encodeArg_object_eq {s : LuaString} {raw : Ref} {c : Class} {j : JArg Ref}
    (h : encodeArg env s (.object raw c) = .ok (some j)) : e.marshalArg j = .ok (.reference (some raw)) := by
  rw [encodeArg] at h
  split_ifs at h with harr hcls
  · obtain rfl := Option.some.inj (Except.ok.inj h)
    rfl
  · cases hfind : env.jvm.findClass (lookupName s) with
    | none =>
      rw [hfind] at h
      cases h
    | some tc =>
      rw [hfind] at h
      have h := Except.ok.inj h
      split_ifs at h
      obtain rfl := Option.some.inj h
      rfl
  · cases Except.ok.inj h

/-- The pair of a number. -/
theorem encodeArg_number_eq {p : PrimType} (hp : p ≠ .Z) {n : LuaNumber} {j : JArg Ref}
    (h : encodeArg env (FieldType.prim p).descriptor (.number n) = .ok (some j)) :
    (p = .I ∨ p = .J ∨ p = .F ∨ p = .D) ∧ j = numberPair p n := by
  cases p with
  | Z => exact absurd rfl hp
  | B => cases Except.ok.inj h
  | C => cases Except.ok.inj h
  | S => cases Except.ok.inj h
  | I => exact ⟨Or.inl rfl, (Option.some.inj (Except.ok.inj h)).symm⟩
  | J => exact ⟨Or.inr (Or.inl rfl), (Option.some.inj (Except.ok.inj h)).symm⟩
  | F => exact ⟨Or.inr (Or.inr (Or.inl rfl)), (Option.some.inj (Except.ok.inj h)).symm⟩
  | D => exact ⟨Or.inr (Or.inr (Or.inr rfl)), (Option.some.inj (Except.ok.inj h)).symm⟩

/-- An accepted argument reaches Java as what it stands for exactly when it is no number that the type has not. -/
theorem marshalArg_iff (hformat : ∀ s, env.format (.string s) = formatString s) (h : StandsFor env types t v x)
    {j : JArg Ref} (hj : encodeArg env t.descriptor v = .ok (some j)) :
    e.marshalArg j = .ok x ↔ NumberFits e t v := by
  have hno : (∀ n, v ≠ .number n) → NumberFits e t v := fun hne p n _ hv => absurd hv (hne n)
  cases h with
  | boolean b =>
    obtain rfl := Option.some.inj (Except.ok.inj hj)
    exact iff_of_true rfl (hno fun _ hv => by cases hv)
  | number p hp n =>
    obtain ⟨hkind, rfl⟩ := encodeArg_number_eq hp hj
    rw [marshalArg_number hkind]
    constructor
    · intro heq
      have hpassed := (JValue.number.inj (Except.ok.inj heq)).2
      rintro p' n' ht hv
      obtain rfl := FieldType.prim.inj ht
      obtain rfl := Value.number.inj hv
      exact (passed_eq_iff hkind n).mp hpassed
    · intro hfits
      rw [(passed_eq_iff hkind n).mpr (hfits p n rfl rfl)]
  | string t ht text hplain =>
    have hpair : encodeArg env t.descriptor (.string (utf8 text)) =
        .ok (some ⟨"STR".toList, .text (env.format (.string (utf8 text)))⟩) := by
      rw [encodeArg, encodeString, if_pos ht]
    obtain rfl := Option.some.inj (Except.ok.inj (hpair.symm.trans hj))
    refine iff_of_true ?_ (hno fun _ hv => by cases hv)
    show Except.ok (JValue.string (e.jni.newStringUTF (bytes (cString (env.format (.string (utf8 text))))))) = _
    rw [hformat, newStringUTF_utf8 hplain]
  | object t ht raw c hc => exact iff_of_true (encodeArg_object_eq hj) (hno fun _ hv => by cases hv)
  | null t ht =>
    obtain rfl := Option.some.inj (Except.ok.inj hj)
    exact iff_of_true rfl (hno fun _ hv => by cases hv)

end Argument

/-! ## All arguments -/

section Arguments

variable {env : CallEnv Class Method Ref} {types : TypeClasses env} {e : MarshalEnv} {m : JmethodId Class Method}
  {args : List (Value Class Ref)} {xs : List (JValue Ref)}

/-- Accepted arguments reach Java as what they stand for exactly when each number is a value of its type. -/
theorem marshal_eq_iff (hformat : ∀ s, env.format (.string s) = formatString s)
    {ps : List (FieldType × Value Class Ref)} (hps : List.Forall₂ (fun p x => StandsFor env types p.1 p.2 x) ps xs)
    {js : List (JArg Ref)} (hjs : List.Forall₂ (fun p j => encodeArg env p.1.descriptor p.2 = .ok (some j)) ps js) :
    e.marshal js.length js = .ok xs ↔ ∀ p ∈ ps, NumberFits e p.1 p.2 := by
  rw [marshal_iff]
  induction hps generalizing js with
  | nil =>
    obtain rfl := List.forall₂_nil_left_iff.mp hjs
    exact iff_of_true .nil fun p hp => by cases hp
  | cons hx hrest ih =>
    obtain ⟨j, js', hj, hjs', rfl⟩ := List.forall₂_cons_left_iff.mp hjs
    rw [List.forall₂_cons, List.forall_mem_cons, marshalArg_iff hformat hx hj, ih hjs']

/-- The rounds of a candidate without arrays of arrays. -/
theorem roundsOf_flat (hflat : ∀ t ∈ (m.info env.jvm).params, t.flat = true) :
    roundsOf env args m = ((m.info env.jvm).params.zip args).map fun p => (m, p.1.descriptor, p.2) := by
  rw [roundsOf, piecesOf, flatMap_pieces_of_flat hflat, List.zip_map_left, List.map_map]
  rfl

variable {pre post : List (JmethodId Class Method)}

/-- Candidates with another number of parameters are not tried. -/
theorem tried_of_arity (hpre : ∀ m' ∈ pre, (piecesOf env m').length ≠ luaLen args)
    (ms : List (JmethodId Class Method)) : tried env args (pre ++ ms) = tried env args ms := by
  have hnone : tried env args pre = [] := List.filter_eq_nil_iff.mpr fun m' hm' => by
    simpa using hpre m' hm'
  rw [tried, List.filter_append]
  exact congrArg (· ++ _) hnone

/-- The pairs that are made for accepted arguments. -/
theorem call_of_taken (object : Receiver Class Ref)
    (hret : ∀ m' ∈ pre ++ m :: post, ')' ∉ retText (m'.info env.jvm).ret)
    (hpre : ∀ m' ∈ pre, (piecesOf env m').length ≠ luaLen args)
    (hfits : List.Forall₂ (FitsParam env types) (m.info env.jvm).params args)
    (htaken : ∀ p ∈ (m.info env.jvm).params.zip args, Taken env p.1 p.2) :
    ∃ js, call env object (pre ++ m :: post) args = .ok ⟨m, receiver env object m, js.length, js⟩ ∧
      List.Forall₂ (fun p j => encodeArg env p.1.descriptor p.2 = .ok (some j)) ((m.info env.jvm).params.zip args)
        js := by
  have hlen := luaLen_of_fits hfits
  have hflat : ∀ t ∈ (m.info env.jvm).params, t.flat = true := by
    intro t ht
    rw [← List.map_fst_zip (le_of_eq hfits.length_eq)] at ht
    obtain ⟨p, hp, rfl⟩ := List.mem_map.mp ht
    exact (htaken p hp).flat
  have hpieces : (piecesOf env m).length = luaLen args := by
    rw [piecesOf, flatMap_pieces_of_flat hflat, List.length_map, hlen]
  by_cases hparams : (m.info env.jvm).params = []
  · have hzero : luaLen args = 0 := by rw [hlen, hparams]; rfl
    have hfirst : (pre ++ m :: post).find? (endsFirstLoop env.jvm) = some m := by
      refine List.find?_eq_some_iff_append.mpr ⟨by simp [endsFirstLoop, hparams], pre, post, rfl, fun m' hm' => ?_⟩
      have hne : (m'.info env.jvm).params ≠ [] := by
        intro hnil
        apply hpre m' hm'
        rw [piecesOf, hnil, hzero]
        rfl
      simp [endsFirstLoop, hne, hret m' (List.mem_append_left _ hm')]
    refine ⟨[], ?_, by rw [hparams]; exact .nil⟩
    rw [call_zero object _ hzero, hfirst]
    exact if_neg (hret m (by simp))
  · have hpos : 1 ≤ luaLen args := by
      have := List.length_pos_of_ne_nil hparams
      omega
    have hall : ∀ r ∈ roundsOf env args m, ∃ j, roundPair env r = .ok (some j) := by
      rw [roundsOf_flat hflat, List.forall_mem_map]
      intro p hp
      exact (encodeArg_iff ((List.forall₂_iff_zip.mp hfits).2 hp) (hflat p.1 (List.of_mem_zip hp).1)).mpr
        (htaken p hp)
    have hnone : ∀ r ∈ rounds env args (tried env args pre), roundPair env r = .ok none := by
      have htried := tried_of_arity hpre ([] : List (JmethodId Class Method))
      rw [List.append_nil] at htried
      rw [htried]
      intro r hr
      cases hr
    have hgiven := forall₂_given hall
    have hcount := hgiven.length_eq
    rw [length_roundsOf hpieces] at hcount
    refine ⟨given (roundPair env) (roundsOf env args m), ?_, ?_⟩
    · rw [call_first object hpos hret hnone hpieces hall, hcount]
    · rw [roundsOf_flat hflat, List.forall₂_map_left_iff] at hgiven
      rw [roundsOf_flat hflat]
      exact hgiven

/-- **The first candidate of its arity is invoked** exactly when it accepts all arguments. -/
theorem calls_iff (object : Receiver Class Ref)
    (hret : ∀ m' ∈ pre ++ m :: post, ')' ∉ retText (m'.info env.jvm).ret)
    (hpre : ∀ m' ∈ pre, (piecesOf env m').length ≠ luaLen args)
    (hpost : ∀ m' ∈ post, m'.methodIdRaw ≠ m.methodIdRaw)
    (hfits : List.Forall₂ (FitsParam env types) (m.info env.jvm).params args) :
    (∃ inv, call env object (pre ++ m :: post) args = .ok inv ∧ inv.method.methodIdRaw = m.methodIdRaw) ↔
      ∀ p ∈ (m.info env.jvm).params.zip args, Taken env p.1 p.2 := by
  have hlen := luaLen_of_fits hfits
  constructor
  · rintro ⟨inv, hcall, hm⟩
    by_cases hparams : (m.info env.jvm).params = []
    · rw [hparams]
      intro p hp
      cases hp
    have hpos : 1 ≤ luaLen args := by
      have := List.length_pos_of_ne_nil hparams
      omega
    obtain ⟨before, m', p, after, j, hsplit, hbefore, hj, hjs, rfl⟩ := (call_eq_ok_iff object hpos hret).mp hcall
    -- no round of a later candidate is one of `m`
    have hlater : (m', p) ∉ rounds env args (tried env args post) := by
      intro hmem
      obtain ⟨m'', hm'', hr⟩ := List.mem_flatMap.mp hmem
      obtain ⟨q, -, hq⟩ := List.mem_map.mp hr
      obtain ⟨rfl, -⟩ := Prod.mk.inj hq
      exact hpost m'' (List.mem_filter.mp hm'').1 hm
    rw [tried_of_arity hpre] at hsplit
    by_cases hpieces : (piecesOf env m).length = luaLen args
    · have hrounds : rounds env args (tried env args (m :: post)) =
          roundsOf env args m ++ rounds env args (tried env args post) := by
        rw [tried, List.filter_cons_of_pos (by simpa using hpieces)]
        rfl
      rw [hrounds] at hsplit
      obtain ⟨own, hown⟩ : ∃ own, roundsOf env args m = before ++ (m', p) :: own := by
        rcases List.append_eq_append_iff.mp hsplit with ⟨l, -, hl⟩ | ⟨l, hl, hr⟩
        · exact absurd (by rw [hl]; simp) hlater
        · cases l with
          | nil =>
            rw [List.nil_append] at hr
            exact absurd (by rw [← hr]; simp) hlater
          | cons r l =>
            obtain ⟨rfl, -⟩ := List.cons.inj hr
            exact ⟨l, hl⟩
      have hcollect : collect (roundPair env) (luaLen args) (roundsOf env args m) [] =
          .ok (some ((m', p), given (roundPair env) before ++ [j])) :=
        (collect_eq_some_iff hpos).mpr ⟨before, own, j, hown, hbefore, hj, rfl, hjs⟩
      have hall := all_of_collect hpos (by simpa using length_roundsOf hpieces) hcollect
      have hflat := flat_of_length_pieces (hpieces.trans hlen)
      rw [roundsOf_flat hflat, List.forall_mem_map] at hall
      intro q hq
      exact (encodeArg_iff ((List.forall₂_iff_zip.mp hfits).2 hq) (hflat q.1 (List.of_mem_zip hq).1)).mp (hall q hq)
    · rw [tried, List.filter_cons_of_neg (by simpa using hpieces)] at hsplit
      exact absurd (by rw [tried, hsplit]; simp) hlater
  · intro htaken
    obtain ⟨js, hcall, -⟩ := call_of_taken object hret hpre hfits htaken
    exact ⟨_, hcall, rfl⟩

end Arguments

/-! ## The result -/

section Result

theorem Outcome.bind_eq_ok {α β : Type} {x : Outcome α} {f : α → Outcome β} {b : β} (h : x.bind f = .ok b) :
    ∃ a, x = .ok a ∧ f a = .ok b := by
  cases x with
  | ok a => exact ⟨a, rfl, h⟩
  | error err => cases h
  | undefined => cases h

variable {env : ReturnEnv Class Ref} {m : MethodInfo} {r : JavaResult Class Ref}

/-- Where the value corresponds to the result, the method was called by its own call. -/
theorem decodes_of_value {v : ReturnValue Class Ref} (hcall : methodCall env m r = .ok v) (hlua : AsLua env m r v) :
    Decodes env m r := by
  have hfamily : jniCall m (preferredRetType m) = some (properCall m) := by
    unfold methodCall ljCallMethod at hcall
    cases hjni : jniCall m (preferredRetType m) with
    | none =>
      rw [hjni] at hcall
      cases hcall
    | some c =>
      rw [hjni] at hcall
      by_cases hproper : c = properCall m
      · rw [hproper]
      · dsimp only at hcall
        rw [if_neg hproper] at hcall
        cases hcall
  refine ⟨hfamily, fun o ho hpush => ?_, v, hcall, hlua⟩
  subst ho
  rw [methodCall_of_proper hfamily, pushResult, if_pos hpush] at hcall
  rcases o with _ | ⟨raw, c⟩
  · cases hcall
  · rcases hlua with ⟨-, hstring, -⟩ | ⟨-, w, rfl, -⟩
    · exact hstring
    · -- a string is not made an object
      rw [pushString] at hcall
      cases htext : env.text raw with
      | none =>
        rw [htext] at hcall
        cases hcall
      | some u =>
        rw [htext] at hcall
        change createReturnValue env (.string (newString u)) (preferredRetType m) = _ at hcall
        unfold createReturnValue at hcall
        split_ifs at hcall <;> cases hcall

/-- The value of a call corresponds to the result exactly under `DecodesWhen`. -/
theorem asLua_iff (hr : Returns env m r) :
    (∃ v, methodCall env m r = .ok v ∧ AsLua env m r v) ↔ DecodesWhen env m r := by
  have hdecodes : (∃ v, methodCall env m r = .ok v ∧ AsLua env m r v) ↔ Decodes env m r :=
    ⟨fun ⟨_, hcall, hlua⟩ => decodes_of_value hcall hlua, fun h => h.value⟩
  rw [hdecodes, DecodesWhen]
  by_cases htoString : m.name = toStringName
  · rw [if_pos htoString, decodes_toString htoString hr]
  rw [if_neg htoString]
  by_cases hinit : m.name = initName
  · rw [decodes_init hinit hr, and_iff_right (Or.inl hinit)]
  by_cases hparses : ParsesRet m
  · rw [decodes_parsed htoString hinit hparses hr, and_iff_right (Or.inr hparses)]
  · refine iff_of_false (not_decodes_of_not_parsed htoString hinit hparses) fun hwhen => ?_
    exact hparses (hwhen.1.resolve_left hinit)

end Result

/-! ## The call -/

section Calls

variable {h : Hierarchy Class Method Field Ref} {rawKey : BridgeValue Class Ref → LuaString → Bool} {e : MarshalEnv}
  {env : ReturnEnv Class Ref} {execute : JniInvocation Method Ref → JavaResult Class Ref}
  {types : TypeClasses h.toCallEnv} {raw : Ref} {key : LuaString} {args : List (Value Class Ref)}
  {m : JmethodId Class Method} {xs : List (JValue Ref)}

/-- The steps of a call that comes to its end. -/
theorem callMethods_eq_ok {object : Receiver Class Ref} {possible : List (JmethodId Class Method)}
    {made : JniInvocation Method Ref} {v : ReturnValue Class Ref}
    (hok : callMethods h e env execute object possible args = .ok (made, v)) :
    ∃ inv, call h.toCallEnv object possible args = .ok inv ∧
      ⟨inv.method.methodIdRaw, inv.receiver, made.vals⟩ = made ∧ e.marshal inv.argc inv.jargs = .ok made.vals ∧
      methodCall env (inv.method.info h.jvm) (execute made) = .ok v := by
  unfold callMethods at hok
  cases hinv : call h.toCallEnv object possible args with
  | error err =>
    rw [hinv] at hok
    cases hok
  | ok inv =>
    rw [hinv] at hok
    dsimp only at hok
    cases hvals : e.marshal inv.argc inv.jargs with
    | error err =>
      rw [hvals] at hok
      cases hok
    | ok vals =>
      rw [hvals] at hok
      obtain ⟨r, hvalue, hr⟩ := Outcome.bind_eq_ok hok
      obtain ⟨rfl, rfl⟩ := Prod.mk.inj (Outcome.ok.inj hr)
      exact ⟨inv, rfl, rfl, hvals, hvalue⟩

theorem index_jobject : index h rawKey (.jobject raw) key =
    if rawKey (.jobject raw) key then .other
    else resolveIn h (h.classOf raw) ⟨raw, h.classOf raw⟩ key .other := rfl

/-- A method is called where no key of the tables and no field has the name. -/
theorem callMember_of_visible (hkey : rawKey (.jobject raw) key = false)
    (hfield : findField h (h.classOf raw) key = none) (hfound : findMethods h (h.classOf raw) key ≠ []) :
    callMember h rawKey e env execute (.jobject raw) key args =
      callMethods h e env execute ⟨raw, h.classOf raw⟩ (findMethods h (h.classOf raw) key) args := by
  rw [callMember, index_jobject, hkey, resolveIn, hfield]
  cases hms : findMethods h (h.classOf raw) key with
  | nil => exact absurd hms hfound
  | cons m ms => rfl

theorem callMember_of_hidden
    (hhidden : ¬ (rawKey (.jobject raw) key = false ∧ findField h (h.classOf raw) key = none)) :
    callMember h rawKey e env execute (.jobject raw) key args = .undefined := by
  rw [callMember, index_jobject]
  by_cases hkey : rawKey (.jobject raw) key = true
  · rw [if_pos hkey]
  · rw [if_neg hkey, resolveIn]
    cases hfield : findField h (h.classOf raw) key with
    | none => exact absurd ⟨by simpa using hkey, hfield⟩ hhidden
    | some f => rfl

theorem JavaCall.fits (hcall : JavaCall h types raw key args m xs) :
    List.Forall₂ (FitsParam h.toCallEnv types) (m.info h.jvm).params args := by
  refine List.forall₂_iff_zip.mpr ⟨hcall.arity, fun {t v} hp => ?_⟩
  obtain ⟨i, hi, hget⟩ := List.mem_iff_getElem.mp hp
  have hstands := (List.forall₂_iff_get.mp hcall.standFor).2 i hi (by rw [← hcall.standFor.length_eq]; exact hi)
  have hfits := hstands.fits
  rw [List.get_eq_getElem, hget] at hfits
  exact hfits

theorem JavaCall.isStatic (hcall : JavaCall h types raw key args m xs) : (m.info h.jvm).isStatic = false := by
  have hkind := hcall.kind
  unfold methodKind at hkind
  split_ifs at hkind with hinit hstatic
  exact Bool.eq_false_iff.mpr hstatic

/-- The pairs are made, read and passed, and the result is decoded. -/
theorem callMethods_iff (hformat : ∀ s, h.format (.string s) = formatString s)
    (hcall : JavaCall h types raw key args m xs)
    (hreturns : Returns env (m.info h.jvm) (execute ⟨m.methodIdRaw, raw, xs⟩)) :
    (∃ v, callMethods h e env execute ⟨raw, h.classOf raw⟩ (findMethods h (h.classOf raw) key) args =
        .ok (⟨m.methodIdRaw, raw, xs⟩, v) ∧ AsLua env (m.info h.jvm) (execute ⟨m.methodIdRaw, raw, xs⟩) v) ↔
      (∀ p ∈ (m.info h.jvm).params.zip args, Taken h.toCallEnv p.1 p.2 ∧ NumberFits e p.1 p.2) ∧
        DecodesWhen env (m.info h.jvm) (execute ⟨m.methodIdRaw, raw, xs⟩) := by
  obtain ⟨pre, post, hfound, hpre, hpost⟩ := hcall.found
  have hret := hcall.returnTypes
  have hfits := hcall.fits
  have hlen : luaLen args = args.length := (luaLen_of_fits hfits).trans hcall.arity
  rw [hfound] at hret ⊢
  rw [← hlen] at hpre
  have hreceiver : receiver h.toCallEnv ⟨raw, h.classOf raw⟩ m = raw := by
    rw [receiver, hcall.isStatic]
    exact if_neg fun hboth => absurd hboth.1 (by decide)
  constructor
  · rintro ⟨v, hok, hlua⟩
    obtain ⟨inv, hinv, hmethod, hvals, hvalue⟩ := callMethods_eq_ok hok
    have htaken := (calls_iff _ hret hpre hpost hfits).mp ⟨inv, hinv, congrArg JniInvocation.method hmethod⟩
    obtain ⟨js, hjs, hpairs⟩ := call_of_taken ⟨raw, h.classOf raw⟩ hret hpre hfits htaken
    obtain rfl := Except.ok.inj (hinv.symm.trans hjs)
    have hnumbers := (marshal_eq_iff hformat hcall.standFor hpairs).mp hvals
    exact ⟨fun p hp => ⟨htaken p hp, hnumbers p hp⟩, (asLua_iff hreturns).mp ⟨v, hvalue, hlua⟩⟩
  · rintro ⟨hargs, hwhen⟩
    obtain ⟨js, hjs, hpairs⟩ :=
      call_of_taken ⟨raw, h.classOf raw⟩ hret hpre hfits fun p hp => (hargs p hp).1
    have hvals := (marshal_eq_iff (e := e) hformat hcall.standFor hpairs).mpr fun p hp => (hargs p hp).2
    obtain ⟨v, hvalue, hlua⟩ := (asLua_iff hreturns).mpr hwhen
    refine ⟨v, ?_, hlua⟩
    rw [callMethods, hjs]
    dsimp only
    rw [hvals, hreceiver]
    dsimp only
    rw [hvalue]
    rfl

/-- **A call from Lua is the call in Java**: the method is called on the object with the values that the arguments
stand for, and the Lua value corresponds to the result, exactly when neither a key of the bridge's tables nor a field
has the name, each argument is `Taken`, each number is a value of its parameter's type and the result is one that can
be decoded. -/
theorem callMember_iff (h : Hierarchy Class Method Field Ref) (types : TypeClasses h.toCallEnv)
    (rawKey : BridgeValue Class Ref → LuaString → Bool) (e : MarshalEnv) (env : ReturnEnv Class Ref)
    (execute : JniInvocation Method Ref → JavaResult Class Ref)
    (hformat : ∀ s, h.format (.string s) = formatString s) (hcall : JavaCall h types raw key args m xs)
    (hreturns : Returns env (m.info h.jvm) (execute ⟨m.methodIdRaw, raw, xs⟩)) :
    (∃ v, callMember h rawKey e env execute (.jobject raw) key args = .ok (⟨m.methodIdRaw, raw, xs⟩, v) ∧
        AsLua env (m.info h.jvm) (execute ⟨m.methodIdRaw, raw, xs⟩) v) ↔
      (rawKey (.jobject raw) key = false ∧ findField h (h.classOf raw) key = none) ∧
        (∀ p ∈ (m.info h.jvm).params.zip args, Taken h.toCallEnv p.1 p.2 ∧ NumberFits e p.1 p.2) ∧
          DecodesWhen env (m.info h.jvm) (execute ⟨m.methodIdRaw, raw, xs⟩) := by
  by_cases hvisible : rawKey (.jobject raw) key = false ∧ findField h (h.classOf raw) key = none
  · obtain ⟨pre, post, hfound, -, -⟩ := hcall.found
    rw [callMember_of_visible hvisible.1 hvisible.2 (by rw [hfound]; simp), and_iff_right hvisible]
    exact callMethods_iff hformat hcall hreturns
  · rw [callMember_of_hidden hvisible]
    refine iff_of_false ?_ fun hboth => hvisible hboth.1
    rintro ⟨v, hok, -⟩
    cases hok

/-- Points with `double scale(int, String)`. -/
def scaledPoints : Hierarchy Bool Unit Unit (Option Bool) where
  __ := pointHierarchy
  jvm := { pointHierarchy.jvm with
    info := fun _ => ⟨"scale".toList, [.prim .I, .cls ⟨"java/lang/String".toList, stringName_legal⟩],
      some (.prim .D), false, none⟩ }
  isAssignableFrom := fun _ _ => false
  format := luaFormat fun _ => []
  declaringClass_eq := by decide
  init_not_static := fun _ _ => rfl
  className_eq := by decide

def scaledReturns : ReturnEnv Bool (Option Bool) :=
  ⟨scaledPoints.jvm.className, fun _ => false, fun _ => none, fun _ => true⟩

/-- `p.scale(2, "m")`. -/
theorem scale_call : ∃ v, callMember scaledPoints (fun _ _ => false) .x86 scaledReturns (fun _ => .floating 1)
      (.jobject none) "scale".toList [.number (.finite (2 : ℤ)), .string (utf8 ['m'])] =
        .ok (⟨(), none, [.number .I (.finite (2 : ℤ)), .string (['m'].flatMap utf16)]⟩, v) ∧
    AsLua scaledReturns (scaledPoints.jvm.info ()) (.floating 1) v := by
  have hplain : ∀ c ∈ ['m'], Plain c := List.forall_mem_singleton.mpr ⟨by decide, by decide⟩
  have hcall : JavaCall scaledPoints ⟨fun _ => true, fun _ _ h => by cases h⟩ none "scale".toList
      [.number (.finite (2 : ℤ)), .string (utf8 ['m'])] ⟨(), true⟩
      [.number .I (.finite (2 : ℤ)), .string (['m'].flatMap utf16)] :=
    { found := ⟨[], [], rfl, (fun m' hm' => by cases hm'), fun m' hm' => by cases hm'⟩
      returnTypes := fun m' _ => by simp [scaledPoints, JmethodId.info, retText, FieldType.descriptor, PrimType.char]
      kind := rfl
      arity := rfl
      standFor := .cons (.number .I (by decide) _) (.cons (.string _ rfl ['m'] hplain) .nil) }
  have hreturns : Returns scaledReturns (scaledPoints.jvm.info ()) (.floating 1) := by
    rw [Returns, if_neg (by decide)]
    exact .floating .D (Or.inr rfl) 1
  refine (callMember_iff scaledPoints _ _ .x86 _ (fun _ => .floating 1) (fun _ => rfl) hcall hreturns).mpr
    ⟨⟨rfl, rfl⟩, ?_, ?_⟩
  · refine List.forall_mem_cons.mpr ⟨⟨⟨rfl, by decide, fun raw c hobj => by cases hobj⟩, ?_⟩,
      List.forall_mem_singleton.mpr ⟨⟨rfl, by decide, fun raw c hobj => by cases hobj⟩, ?_⟩⟩
    · intro p n ht hv
      obtain rfl := FieldType.prim.inj ht
      obtain rfl := Value.number.inj hv
      exact ⟨_, rfl, 2, rfl, by decide, by decide⟩
    · intro p n ht hv
      cases hv
  · rw [DecodesWhen, if_neg (by decide)]
    refine ⟨Or.inr (Or.inl ?_), fun raw c hr => by cases hr⟩
    simp [scaledPoints, JmethodId.info, FieldType.descriptor, PrimType.char]

end Calls

end YellowTree
