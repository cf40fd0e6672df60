import YellowTree.Bridge.MethodId
import YellowTree.Lib.ListSplit

/-!
# YellowTree.Bridge.CallableMethod — overload resolution in `jcallable_method:__call`

`call` embeds `jcallable_method:__call`: a loop that keeps the candidates with the right number of pieces
(`filterMethods`), then nested loops over candidates and parameters (`tryMethods`, `tryParams`) that append a
`(tag, value)` pair to `jargs` for each argument accepted and invoke the candidate at hand as soon as `jargs` holds
`argc` pairs.  `jargs` is never emptied between candidates.

* `tryMethods_spec`: what the nested loops do, in terms of the pairs `accepted` for each candidate alone.
* `SoundCall`: the outcome is the first candidate that accepts all arguments, with their encodings, or the error.
* `soundCall_iff`: this holds exactly when nothing that an earlier candidate left in `jargs` shows.
-/

namespace YellowTree

open ListSplit

variable {Class Method Ref : Type}

/-! ## The embedding -/

section Embedding

/-- The JVM, `Class.isAssignableFrom`, `string.format("%s", v)` and the object of a class. -/
structure CallEnv (Class Method Ref : Type) where
  jvm : Jvm Class Method
  isAssignableFrom : Class → Class → Bool
  format : Value Class Ref → LuaString
  objectRaw : Class → Ref

/-- The second half of a pair handed to `lj_call_method`. -/
inductive JVal (Ref : Type) where
  | text (s : LuaString)
  | boolean (b : Bool)
  | number (n : LuaNumber)
  | userdata (r : Ref)
  deriving DecidableEq

/-- A pair handed to `lj_call_method`. -/
structure JArg (Ref : Type) where
  tag : LuaString
  val : JVal Ref
  deriving DecidableEq

/-- `object`: the raw reference and the class of the value the method was looked up on. -/
structure Receiver (Class Ref : Type) where
  raw : Ref
  cls : Class

/-- The name `jclass.find` is asked for: without `L` and `;` for non-arrays. -/
def lookupName (t : LuaString) : LuaString :=
  if t.take 1 = ['L'] then (t.drop 1).dropLast else t

def stringType : LuaString := "Ljava/lang/String;".toList

/-- The branch of a String parameter: any argument but a userdata or a table is formatted. -/
def encodeString (env : CallEnv Class Method Ref) (t : LuaString) (argi : Value Class Ref) : Option (JArg Ref) :=
  if t = stringType then some ⟨"STR".toList, .text (env.format argi)⟩ else none

/-- The body of the inner loop, its branches grouped by the kind of `argi`: the pair inserted in `jargs`, if any. -/
def encodeArg (env : CallEnv Class Method Ref) (t : LuaString) (argi : Value Class Ref) :
    Except LuaError (Option (JArg Ref)) :=
  match argi with
  | .javaNull => .ok (some ⟨['V'], .text "NULL".toList⟩)
  | .boolean b => .ok (if t = ['Z'] then some ⟨t, .boolean b⟩ else encodeString env t argi)
  | .number n =>
    .ok (if t = ['I'] ∨ t = ['J'] then some ⟨t, .number n.floor⟩
      else if t = ['F'] ∨ t = ['D'] then some ⟨t, .number n⟩
      else encodeString env t argi)
  | .object raw c =>
    if t.take 1 = ['['] ∧ env.jvm.className c = t then .ok (some ⟨['['], .userdata raw⟩)
    else if t.take 1 = ['L'] ∨ t.take 2 = ['[', 'L'] then
      match env.jvm.findClass (lookupName t) with
      | none => .error (.message "assertion failed!")
      | some tc => .ok (if env.isAssignableFrom tc c then some ⟨['L'], .userdata raw⟩ else none)
    else .ok none
  | .table _ => .ok none
  | .userdata _ => .ok none
  | .nil => .ok (encodeString env t argi)
  | .string _ => .ok (encodeString env t argi)
  | .function _ => .ok (encodeString env t argi)

/-- The inner loop, over the parameters of one candidate: `(true, jargs)` when it comes to the call. -/
def tryParams (env : CallEnv Class Method Ref) (argc : ℕ) :
    List (LuaString × Value Class Ref) → List (JArg Ref) → Except LuaError (Bool × List (JArg Ref))
  | [], jargs => .ok (false, jargs)
  | (t, argi) :: rest, jargs =>
    match encodeArg env t argi with
    | .error e => .error e
    | .ok r =>
      let jargs := jargs ++ r.toList
      -- call only if all args matched
      if 2 * jargs.length = argc * 2 then .ok (true, jargs) else tryParams env argc rest jargs

/-- `parse_arg_spec(m.args)`, of a candidate that the first loop kept. -/
def atypes (jvm : Jvm Class Method) (m : JmethodId Class Method) : List LuaString :=
  (parseArgSpec (m.info jvm).args).getD []

/-- The outer loop over the candidates of the right arity; `jargs` is shared by all of them. -/
def tryMethods (env : CallEnv Class Method Ref) (argc : ℕ) (args : List (Value Class Ref)) :
    List (JmethodId Class Method) → List (JArg Ref) →
      Except LuaError (Option (JmethodId Class Method × List (JArg Ref)))
  | [], _ => .ok none
  | m :: ms, jargs =>
    match tryParams env argc ((atypes env.jvm m).zip args) jargs with
    | .error e => .error e
    | .ok (true, jargs) => .ok (some (m, jargs))
    | .ok (false, jargs) => tryMethods env argc args ms jargs

/-- What the first loop ends with: a call without arguments, or `possible2`. -/
inductive Filtered (Class Method : Type) where
  | invoke (m : JmethodId Class Method)
  | methods (ms : List (JmethodId Class Method))

/-- The first loop: short circuit for no args, and the candidates with `argc` pieces. -/
def filterMethods (jvm : Jvm Class Method) (argc : ℕ) :
    List (JmethodId Class Method) → Except LuaError (Filtered Class Method)
  | [] => .ok (.methods [])
  | m :: ms =>
    if argc = 0 ∧ (m.info jvm).args = [] then .ok (.invoke m)
    else
      match parseArgSpec (m.info jvm).args with
      | none => .error (.message "attempt to perform arithmetic on local 'endi' (a nil value)")
      | some ts =>
        match filterMethods jvm argc ms with
        | .error e => .error e
        | .ok (.invoke m') => .ok (.invoke m')
        | .ok (.methods ms') => .ok (.methods (if ts.length = argc then m :: ms' else ms'))

/-- `m(object.object_raw, argc, table.unpack(jargs))`. -/
structure Invocation (Class Method Ref : Type) where
  method : JmethodId Class Method
  receiver : Ref
  argc : ℕ
  jargs : List (JArg Ref)

/-- The receiver of a static method is the class of the object, unless the object is a class. -/
def receiver (env : CallEnv Class Method Ref) (object : Receiver Class Ref) (m : JmethodId Class Method) : Ref :=
  if (m.info env.jvm).isStatic ∧ env.jvm.className object.cls ≠ "java.lang.Class".toList then
    env.objectRaw object.cls
  else object.raw

/-- The text of the error ends with a dump of the candidates, left out here. -/
def noMatchingMethod : LuaError := .message "No matching method for given arguments: "

/-- `jcallable_method:__call`. -/
def call (env : CallEnv Class Method Ref) (object : Receiver Class Ref) (possible : List (JmethodId Class Method))
    (args : List (Value Class Ref)) : Except LuaError (Invocation Class Method Ref) :=
  let argc := luaLen args
  match filterMethods env.jvm argc possible with
  | .error e => .error e
  | .ok (.invoke m) => .ok ⟨m, receiver env object m, 0, []⟩
  | .ok (.methods possible2) =>
    match tryMethods env argc args possible2 [] with
    | .error e => .error e
    | .ok (some (m, jargs)) => .ok ⟨m, receiver env object m, argc, jargs⟩
    | .ok none => .error noMatchingMethod

end Embedding

/-! ## What a call should do -/

section Spec

/-- `m` has as many parameters as there are arguments, each argument is accepted by the type of its own parameter,
and `js` are the encodings, in order. -/
def Matches (env : CallEnv Class Method Ref) (args : List (Value Class Ref)) (m : JmethodId Class Method)
    (js : List (JArg Ref)) : Prop :=
  (m.info env.jvm).params.length = luaLen args ∧
    List.Forall₂ (fun p j => encodeArg env p.1.descriptor p.2 = .ok (some j))
      ((m.info env.jvm).params.zip (args.take (luaLen args))) js

/-- The outcome of a sound overload resolution: the first candidate that accepts all arguments is invoked with
their encodings; if there is none, the error is raised. -/
def SoundCall (env : CallEnv Class Method Ref) (object : Receiver Class Ref)
    (possible : List (JmethodId Class Method)) (args : List (Value Class Ref)) :
    Except LuaError (Invocation Class Method Ref) → Prop
  | .ok inv =>
    inv.argc = luaLen args ∧ inv.receiver = receiver env object inv.method ∧
      Matches env args inv.method inv.jargs ∧
      ∃ pre post, possible = pre ++ inv.method :: post ∧ ∀ m ∈ pre, ∀ js, ¬ Matches env args m js
  | .error e => e = noMatchingMethod ∧ ∀ m ∈ possible, ∀ js, ¬ Matches env args m js

/-- The pairs of the arguments that the types `ts` accept, refused positions left out. -/
def accepted (env : CallEnv Class Method Ref) (ts : List LuaString) (args : List (Value Class Ref)) :
    List (JArg Ref) :=
  (ts.zip args).filterMap fun p => (encodeArg env p.1 p.2).toOption.join

/-- The encodings against the own parameters of `m`. -/
def ownArgs (env : CallEnv Class Method Ref) (args : List (Value Class Ref)) (m : JmethodId Class Method) :
    List (JArg Ref) :=
  accepted env ((m.info env.jvm).params.map FieldType.descriptor) args

/-- `m` accepts all arguments. -/
def accepts (env : CallEnv Class Method Ref) (args : List (Value Class Ref)) (m : JmethodId Class Method) : Bool :=
  (m.info env.jvm).params.length == luaLen args && (ownArgs env args m).length == luaLen args

/-- The pieces of the parameters of `m`; the loop tries `m` when there are `argc` of them. -/
def piecesOf (env : CallEnv Class Method Ref) (m : JmethodId Class Method) : List LuaString :=
  (m.info env.jvm).params.flatMap FieldType.pieces

/-- What the candidates `ms` leave in `jargs` when none of them is invoked: the pairs of the arguments they accept,
one candidate after the other. -/
def leftOver (env : CallEnv Class Method Ref) (args : List (Value Class Ref)) (ms : List (JmethodId Class Method)) :
    List (JArg Ref) :=
  (ms.filter fun m => (piecesOf env m).length == luaLen args).flatMap fun m => accepted env (piecesOf env m) args

/-- When the shared `jargs` does no harm.  No return type has a parenthesis in a class name.  If no candidate accepts
all arguments, the candidates of the right arity together accept fewer than `argc`.  If `m` is the first that does,
no parameter of `m` is an array of arrays, the candidates before `m` accept fewer than `argc` together, and what
they leave in `jargs` followed by the encodings for `m` begins with these encodings (as it does when they accept
nothing). -/
def CallCondition (env : CallEnv Class Method Ref) (possible : List (JmethodId Class Method))
    (args : List (Value Class Ref)) : Prop :=
  (∀ m ∈ possible, ')' ∉ retText (m.info env.jvm).ret) ∧
    match possible.dropWhile (!accepts env args ·) with
    | [] => (leftOver env args possible).length < luaLen args
    | m :: _ =>
      let left := leftOver env args (possible.takeWhile (!accepts env args ·))
      (∀ t ∈ (m.info env.jvm).params, t.flat = true) ∧ left.length < luaLen args ∧
        (left ++ ownArgs env args m).take (luaLen args) = ownArgs env args m

/-- `jclass.find` succeeds for the class names of the parameters of `m`. -/
def FindsParams (jvm : Jvm Class Method) (m : JmethodId Class Method) : Prop :=
  ∀ t ∈ (m.info jvm).params, ∀ p ∈ t.pieces, p.take 1 = ['L'] ∨ p.take 2 = ['[', 'L'] →
    (jvm.findClass (lookupName p)).isSome

end Spec

/-! ## The loops -/

section Loops

variable {env : CallEnv Class Method Ref} {args : List (Value Class Ref)}

/-- The loop body raises no error on the types `ts`. -/
def NoErrors (env : CallEnv Class Method Ref) (ts : List LuaString) : Prop :=
  ∀ t ∈ ts, ∀ v, ∃ r, encodeArg env t v = .ok r

theorem encodeArg_ok {t : LuaString}
    (h : t.take 1 = ['L'] ∨ t.take 2 = ['[', 'L'] → (env.jvm.findClass (lookupName t)).isSome)
    (v : Value Class Ref) : ∃ r, encodeArg env t v = .ok r := by
  cases v with
  | object raw c =>
    simp only [encodeArg]
    split_ifs with h1 h2
    · exact ⟨_, rfl⟩
    · obtain ⟨tc, htc⟩ := Option.isSome_iff_exists.mp (h h2)
      rw [htc]
      exact ⟨_, rfl⟩
    · exact ⟨_, rfl⟩
  | _ => exact ⟨_, rfl⟩

theorem FindsParams.noErrors {m : JmethodId Class Method} (h : FindsParams env.jvm m) :
    NoErrors env (piecesOf env m) := by
  intro p hp v
  obtain ⟨t, ht, hp⟩ := List.mem_flatMap.mp hp
  exact encodeArg_ok (h t ht p hp) v

theorem accepted_cons {t : LuaString} {ts : List LuaString} {v : Value Class Ref} {vs : List (Value Class Ref)}
    {r : Option (JArg Ref)} (h : encodeArg env t v = .ok r) :
    accepted env (t :: ts) (v :: vs) = r.toList ++ accepted env ts vs := by
  rw [accepted, List.zip_cons_cons]
  cases r with
  | none => rw [List.filterMap_cons_none (by rw [h]; rfl)]; rfl
  | some j => rw [List.filterMap_cons_some (b := j) (by rw [h]; rfl)]; rfl

/-- The inner loop appends the accepted pairs and stops when there are `argc` of them. -/
theorem tryParams_spec {argc : ℕ} : ∀ (ts : List LuaString) (vs : List (Value Class Ref)) (jargs : List (JArg Ref)),
    NoErrors env ts → jargs.length < argc →
    tryParams env argc (ts.zip vs) jargs =
      .ok (if (jargs ++ accepted env ts vs).length < argc then (false, jargs ++ accepted env ts vs)
        else (true, (jargs ++ accepted env ts vs).take argc))
  | [], vs, jargs, _, hlt => by simp [tryParams, accepted, hlt]
  | t :: ts, [], jargs, _, hlt => by simp [tryParams, accepted, hlt]
  | t :: ts, v :: vs, jargs, hok, hlt => by
    obtain ⟨r, hr⟩ := hok t (by simp) v
    have hok' : NoErrors env ts := fun t' ht' => hok t' (by simp [ht'])
    rw [List.zip_cons_cons, accepted_cons hr, ← List.append_assoc, tryParams, hr]
    dsimp only
    have hrl : r.toList.length ≤ 1 := by cases r <;> simp
    by_cases hfull : (jargs ++ r.toList).length = argc
    · rw [if_pos (by omega), if_neg (by rw [List.length_append]; omega),
        List.take_append_of_le_length (by omega), List.take_of_length_le (by omega)]
    · rw [if_neg (by omega)]
      refine tryParams_spec ts vs (jargs ++ r.toList) hok' ?_
      rw [List.length_append] at hfull ⊢
      omega

/-- The pairs that the candidates `ms`, all of them tried, accept. -/
def allAccepted (env : CallEnv Class Method Ref) (args : List (Value Class Ref))
    (ms : List (JmethodId Class Method)) : List (JArg Ref) :=
  ms.flatMap fun m => accepted env (piecesOf env m) args

/-- The outer loop gives up when all candidates together accept fewer than `argc` arguments; otherwise it invokes
the candidate at which the count reaches `argc`, with the first `argc` pairs of `jargs`. -/
theorem tryMethods_spec (args : List (Value Class Ref)) {argc : ℕ} :
    ∀ (ms : List (JmethodId Class Method)) (jargs : List (JArg Ref)),
    (∀ m ∈ ms, NoErrors env (piecesOf env m) ∧ atypes env.jvm m = piecesOf env m) → jargs.length < argc →
    ((jargs ++ allAccepted env args ms).length < argc ∧ tryMethods env argc args ms jargs = .ok none) ∨
    ∃ pre m post, ms = pre ++ m :: post ∧ (jargs ++ allAccepted env args pre).length < argc ∧
      argc ≤ (jargs ++ allAccepted env args pre ++ accepted env (piecesOf env m) args).length ∧
      tryMethods env argc args ms jargs =
        .ok (some (m, (jargs ++ allAccepted env args pre ++ accepted env (piecesOf env m) args).take argc))
  | [], jargs, _, hlt => Or.inl ⟨by simpa [allAccepted] using hlt, rfl⟩
  | m :: ms, jargs, hok, hlt => by
    obtain ⟨hne, hat⟩ := hok m (by simp)
    have hinner := tryParams_spec (piecesOf env m) args jargs hne hlt
    by_cases hfew : (jargs ++ accepted env (piecesOf env m) args).length < argc
    · rw [if_pos hfew] at hinner
      have hstep : tryMethods env argc args (m :: ms) jargs =
          tryMethods env argc args ms (jargs ++ accepted env (piecesOf env m) args) := by
        rw [tryMethods, hat, hinner]
      have hall : ∀ l, jargs ++ allAccepted env args (m :: l) =
          jargs ++ accepted env (piecesOf env m) args ++ allAccepted env args l := by
        intro l
        simp [allAccepted]
      rw [hstep, hall]
      rcases tryMethods_spec args ms _ (fun m' hm' => hok m' (by simp [hm'])) hfew with h |
        ⟨pre, m', post, h1, h2, h3, h4⟩
      · exact Or.inl h
      · refine Or.inr ⟨m :: pre, m', post, by rw [h1]; rfl, ?_, ?_, ?_⟩
        · rw [hall]; exact h2
        · rw [hall]; exact h3
        · rw [hall]; exact h4
    · rw [if_neg hfew] at hinner
      refine Or.inr ⟨[], m, ms, rfl, by simpa [allAccepted] using hlt, ?_, ?_⟩
      · simpa [allAccepted] using hfew
      · rw [tryMethods, hat, hinner]
        simp [allAccepted]

/-- The first loop keeps the candidates with `argc` pieces. -/
theorem filterMethods_ok {jvm : Jvm Class Method} {argc : ℕ} (hargc : 1 ≤ argc) :
    ∀ possible : List (JmethodId Class Method), (∀ m ∈ possible, ')' ∉ retText (m.info jvm).ret) →
      filterMethods jvm argc possible =
        .ok (.methods (possible.filter fun m =>
          ((m.info jvm).params.flatMap FieldType.pieces).length == argc))
  | [], _ => rfl
  | m :: ms, h => by
    have hm := MethodInfo.parse_args (h m (by simp))
    rw [filterMethods, if_neg (by omega), hm]
    dsimp only
    rw [filterMethods_ok hargc ms fun m' hm' => h m' (by simp [hm'])]
    dsimp only
    rw [List.filter_cons]
    by_cases hl : ((m.info jvm).params.flatMap FieldType.pieces).length = argc
    · rw [if_pos hl, if_pos (beq_iff_eq.mpr hl)]
    · rw [if_neg hl, if_neg (by rwa [beq_iff_eq])]

/-- It fails on a candidate whose return type has a parenthesis. -/
theorem filterMethods_error {jvm : Jvm Class Method} {argc : ℕ} (hargc : 1 ≤ argc) :
    ∀ possible : List (JmethodId Class Method), ¬ (∀ m ∈ possible, ')' ∉ retText (m.info jvm).ret) →
      filterMethods jvm argc possible =
        .error (.message "attempt to perform arithmetic on local 'endi' (a nil value)")
  | [], h => absurd (by simp) h
  | m :: ms, h => by
    rw [filterMethods, if_neg (by omega)]
    by_cases hm : ')' ∈ retText (m.info jvm).ret
    · rw [MethodInfo.parse_args_eq_none hm]
    · rw [MethodInfo.parse_args hm]
      dsimp only
      rw [filterMethods_error hargc ms fun hms => h (List.forall_mem_cons.mpr ⟨hm, hms⟩)]

end Loops

/-! ## Sound calls in terms of `accepts` -/

section Matching

variable {env : CallEnv Class Method Ref} {args : List (Value Class Ref)}

theorem toOption_join_eq_some {x : Except LuaError (Option (JArg Ref))} {j : JArg Ref} :
    x.toOption.join = some j ↔ x = .ok (some j) := by
  rcases x with e | _ | k <;> simp [Except.toOption]

theorem matches_iff {m : JmethodId Class Method} {js : List (JArg Ref)} :
    Matches env args m js ↔ accepts env args m = true ∧ js = ownArgs env args m := by
  rw [accepts, Bool.and_eq_true, beq_iff_eq, beq_iff_eq, and_assoc]
  refine and_congr_right fun hl => ?_
  -- both sides see the parameters zipped with the first `argc` arguments
  have hzip : ownArgs env args m = ((m.info env.jvm).params.zip (args.take (luaLen args))).filterMap
      fun p => (encodeArg env p.1.descriptor p.2).toOption.join := by
    have htake : (m.info env.jvm).params.zip (args.take (luaLen args)) = (m.info env.jvm).params.zip args := by
      rw [← hl]
      nth_rewrite 1 [← List.take_length (l := (m.info env.jvm).params)]
      rw [List.zip, ← List.take_zipWith, List.take_of_length_le (by simp)]
    rw [ownArgs, accepted, List.zip_map_left, List.filterMap_map, htake]
    rfl
  have hlen : ((m.info env.jvm).params.zip (args.take (luaLen args))).length = luaLen args := by
    have := luaLen_le args
    rw [List.length_zip, List.length_take]
    omega
  simp only [← toOption_join_eq_some]
  rw [forall₂_some_iff, ← hzip, hlen]
  constructor
  · rintro ⟨rfl, h⟩
    exact ⟨h, rfl⟩
  · rintro ⟨h, rfl⟩
    exact ⟨rfl, h⟩

theorem not_matches_iff {m : JmethodId Class Method} :
    (∀ js, ¬ Matches env args m js) ↔ accepts env args m = false := by
  simp only [matches_iff, not_and, Bool.eq_false_iff]
  exact ⟨fun h ha => h _ ha rfl, fun h js ha => absurd ha h⟩

end Matching

/-! ## When a call is sound -/

section Exactness

variable {env : CallEnv Class Method Ref} {args : List (Value Class Ref)}

theorem leftOver_append (ms ms' : List (JmethodId Class Method)) :
    leftOver env args (ms ++ ms') = leftOver env args ms ++ leftOver env args ms' := by
  rw [leftOver, List.filter_append, List.flatMap_append]
  rfl

theorem leftOver_cons {m : JmethodId Class Method} (h : (piecesOf env m).length = luaLen args)
    (ms : List (JmethodId Class Method)) :
    leftOver env args (m :: ms) = accepted env (piecesOf env m) args ++ leftOver env args ms := by
  rw [leftOver, List.filter_cons, if_pos (beq_iff_eq.mpr h), List.flatMap_cons]
  rfl

/-- Past a tried candidate the count includes what it accepts. -/
theorem length_leftOver_append_cons (pre post : List (JmethodId Class Method)) {m : JmethodId Class Method}
    (h : (piecesOf env m).length = luaLen args) :
    (leftOver env args pre ++ accepted env (piecesOf env m) args).length ≤
      (leftOver env args (pre ++ m :: post)).length := by
  rw [leftOver_append, leftOver_cons h]
  simp only [List.length_append]
  omega

/-- A candidate that accepts all arguments and has no array of arrays is tried, against its own parameters. -/
theorem piecesOf_of_accepts {m : JmethodId Class Method} (ha : accepts env args m = true)
    (hflat : ∀ t ∈ (m.info env.jvm).params, t.flat = true) :
    (piecesOf env m).length = luaLen args ∧ accepted env (piecesOf env m) args = ownArgs env args m := by
  rw [accepts, Bool.and_eq_true, beq_iff_eq] at ha
  rw [ownArgs, piecesOf, flatMap_pieces_of_flat hflat, List.length_map]
  exact ⟨ha.1, rfl⟩

theorem length_ownArgs {m : JmethodId Class Method} (ha : accepts env args m = true) :
    (ownArgs env args m).length = luaLen args := by
  rw [accepts, Bool.and_eq_true, beq_iff_eq, beq_iff_eq] at ha
  exact ha.2

/-- What the loop splits the arguments of a candidate into. -/
theorem atypes_eq {m : JmethodId Class Method} (hret : ')' ∉ retText (m.info env.jvm).ret) :
    atypes env.jvm m = piecesOf env m := by
  rw [atypes, MethodInfo.parse_args hret]
  rfl

variable {possible : List (JmethodId Class Method)}

/-- A call with arguments is the loop over the candidates that are tried. -/
theorem call_pos (object : Receiver Class Ref) (hargc : 1 ≤ luaLen args) (possible : List (JmethodId Class Method))
    (hret : ∀ m ∈ possible, ')' ∉ retText (m.info env.jvm).ret) :
    call env object possible args =
      match tryMethods env (luaLen args) args
        (possible.filter fun m => (piecesOf env m).length == luaLen args) [] with
      | .error e => .error e
      | .ok (some (m, jargs)) => .ok ⟨m, receiver env object m, luaLen args, jargs⟩
      | .ok none => .error noMatchingMethod := by
  rw [call, filterMethods_ok hargc possible hret]
  rfl

/-- What a call does when no return type has a parenthesis: it fails when all tried candidates together accept fewer
than `argc` arguments, and otherwise invokes the candidate at which the count reaches `argc`. -/
theorem call_spec (object : Receiver Class Ref) (hargc : 1 ≤ luaLen args)
    (hfind : ∀ m ∈ possible, FindsParams env.jvm m)
    (hret : ∀ m ∈ possible, ')' ∉ retText (m.info env.jvm).ret) :
    ((leftOver env args possible).length < luaLen args ∧
      call env object possible args = .error noMatchingMethod) ∨
    ∃ pre m post, possible = pre ++ m :: post ∧ (piecesOf env m).length = luaLen args ∧
      (leftOver env args pre).length < luaLen args ∧
      luaLen args ≤ (leftOver env args pre ++ accepted env (piecesOf env m) args).length ∧
      call env object possible args = .ok ⟨m, receiver env object m, luaLen args,
        (leftOver env args pre ++ accepted env (piecesOf env m) args).take (luaLen args)⟩ := by
  have hcall := call_pos object hargc possible hret
  set tried := possible.filter fun m => (piecesOf env m).length == luaLen args with htried
  have hmem : ∀ m ∈ tried, NoErrors env (piecesOf env m) ∧ atypes env.jvm m = piecesOf env m := by
    intro m hm
    have hm := (List.mem_filter.mp hm).1
    exact ⟨(hfind m hm).noErrors, atypes_eq (hret m hm)⟩
  have hloop := tryMethods_spec args tried [] hmem hargc
  rcases hloop with ⟨hlt, hnone⟩ | ⟨pre', m, post', hsplit, hlt, hge, hsome⟩
  · rw [hnone] at hcall
    exact Or.inl ⟨hlt, hcall⟩
  · rw [hsome] at hcall
    obtain ⟨pre, rest, hpos, hpre, hrest⟩ := List.filter_eq_append_iff.mp (htried.symm.trans hsplit)
    obtain ⟨mid, post, hrest', hmid, hm, -⟩ := List.filter_eq_cons_iff.mp hrest
    have hleft : leftOver env args (pre ++ mid) = allAccepted env args pre' := by
      rw [leftOver, List.filter_append, hpre, List.filter_eq_nil_iff.mpr hmid, List.append_nil]
      rfl
    refine Or.inr ⟨pre ++ mid, m, post, by rw [hpos, hrest', List.append_assoc], beq_iff_eq.mp hm, ?_, ?_, ?_⟩
    · rw [hleft]; exact hlt
    · rw [hleft]; exact hge
    · rw [hleft]; exact hcall

/-- The condition when no candidate accepts all arguments. -/
theorem callCondition_of_none (h : ∀ m ∈ possible, accepts env args m = false) :
    CallCondition env possible args ↔ (∀ m ∈ possible, ')' ∉ retText (m.info env.jvm).ret) ∧
      (leftOver env args possible).length < luaLen args := by
  have hnone : possible.dropWhile (!accepts env args ·) = [] :=
    List.dropWhile_eq_nil_iff.mpr fun m hm => by simp [h m hm]
  rw [CallCondition, hnone]

/-- The condition when `m` is the first candidate that accepts all arguments. -/
theorem callCondition_of_first {pre post : List (JmethodId Class Method)} {m : JmethodId Class Method}
    (hpre : ∀ m' ∈ pre, accepts env args m' = false) (hm : accepts env args m = true) :
    CallCondition env (pre ++ m :: post) args ↔
      (∀ m' ∈ pre ++ m :: post, ')' ∉ retText (m'.info env.jvm).ret) ∧
        (∀ t ∈ (m.info env.jvm).params, t.flat = true) ∧ (leftOver env args pre).length < luaLen args ∧
          (leftOver env args pre ++ ownArgs env args m).take (luaLen args) = ownArgs env args m := by
  have hpos : ∀ m' ∈ pre, (!accepts env args m') = true := fun m' hm' => by simp [hpre m' hm']
  have hneg : ¬ (!accepts env args m) = true := by simp [hm]
  rw [CallCondition, List.dropWhile_append_of_pos hpos, List.takeWhile_append_of_pos hpos,
    List.dropWhile_cons_of_neg (p := fun m => !accepts env args m) hneg,
    List.takeWhile_cons_of_neg (p := fun m => !accepts env args m) hneg, List.append_nil]

/-- **Overload resolution** is sound exactly when nothing left in `jargs` by an earlier candidate shows. -/
theorem soundCall_iff (env : CallEnv Class Method Ref) (object : Receiver Class Ref)
    (possible : List (JmethodId Class Method)) (args : List (Value Class Ref)) (hargc : 1 ≤ luaLen args)
    (hfind : ∀ m ∈ possible, FindsParams env.jvm m) :
    SoundCall env object possible args (call env object possible args) ↔ CallCondition env possible args := by
  by_cases hret : ∀ m ∈ possible, ')' ∉ retText (m.info env.jvm).ret
  case neg =>
    have hcall : call env object possible args =
        .error (.message "attempt to perform arithmetic on local 'endi' (a nil value)") := by
      rw [call, filterMethods_error hargc possible hret]
    rw [hcall]
    exact ⟨fun h => absurd h.1 (by decide), fun h => absurd h.1 hret⟩
  have hspec := call_spec object hargc hfind hret
  constructor
  · intro hsound
    rcases hspec with ⟨hlt, hcall⟩ | ⟨pre, m, post, hsplit, hpl, hlt, -, hcall⟩
    · rw [hcall] at hsound
      exact (callCondition_of_none fun m hm => not_matches_iff.mp (hsound.2 m hm)).mpr ⟨hret, hlt⟩
    · rw [hcall] at hsound
      obtain ⟨-, -, hmatch, pre', post', hsplit', hpre'⟩ := hsound
      obtain ⟨hm, hargs⟩ := matches_iff.mp hmatch
      dsimp only at hm hargs hsplit'
      have hpre' : ∀ m' ∈ pre', accepts env args m' = false := fun m' hm' => not_matches_iff.mp (hpre' m' hm')
      -- the invoked candidate has as many pieces as parameters
      have hflat : ∀ t ∈ (m.info env.jvm).params, t.flat = true :=
        flat_of_length_pieces (hpl.trans hmatch.1.symm)
      have hown := (piecesOf_of_accepts hm hflat).2
      rcases split_cases (hsplit.symm.trans hsplit') with ⟨rfl, -, -⟩ | ⟨l, hl⟩ | ⟨l, hl⟩
      · rw [hsplit] at hret ⊢
        rw [hown] at hargs
        exact (callCondition_of_first hpre' hm).mpr ⟨hret, hflat, hlt, hargs⟩
      · have hfalse := hpre' m (by rw [hl]; simp)
        rw [hm] at hfalse
        exact absurd hfalse (by decide)
      · have hcount := length_leftOver_append_cons pre' l hpl
        rw [← hl, hown, List.length_append, length_ownArgs hm] at hcount
        omega
  · intro hcond
    cases hfirst : possible.find? (accepts env args) with
    | none =>
      have hnone : ∀ m ∈ possible, accepts env args m = false := by
        intro m hm
        simpa using List.find?_eq_none.mp hfirst m hm
      have hleft := ((callCondition_of_none hnone).mp hcond).2
      rcases hspec with ⟨-, hcall⟩ | ⟨pre, m, post, hsplit, hpl, -, hge, -⟩
      · rw [hcall]
        exact ⟨rfl, fun m hm => not_matches_iff.mpr (hnone m hm)⟩
      · have hcount := length_leftOver_append_cons pre post hpl
        rw [← hsplit] at hcount
        omega
    | some m =>
      obtain ⟨hm, pre, post, hsplit, hpre⟩ := List.find?_eq_some_iff_append.mp hfirst
      have hpre : ∀ m' ∈ pre, accepts env args m' = false := fun m' hm' => by simpa using hpre m' hm'
      rw [hsplit] at hcond
      obtain ⟨-, hflat, hlt, htake⟩ := (callCondition_of_first hpre hm).mp hcond
      obtain ⟨hpl, hown⟩ := piecesOf_of_accepts hm hflat
      have hlen := length_ownArgs hm
      rcases hspec with ⟨hfew, -⟩ | ⟨pre', m', post', hsplit', hpl', hlt', hge', hcall⟩
      · have hcount := length_leftOver_append_cons pre post hpl
        rw [← hsplit, hown, List.length_append, hlen] at hcount
        omega
      · rcases split_cases (hsplit.symm.trans hsplit') with ⟨rfl, rfl, -⟩ | ⟨l, hl⟩ | ⟨l, hl⟩
        · rw [hcall, hown, htake]
          exact ⟨rfl, rfl, matches_iff.mpr ⟨hm, rfl⟩, pre, post, hsplit,
            fun m' hm' => not_matches_iff.mpr (hpre m' hm')⟩
        · have hcount := length_leftOver_append_cons pre l hpl
          rw [← hl, hown, List.length_append, hlen] at hcount
          omega
        · have hcount := length_leftOver_append_cons pre' l hpl'
          rw [← hl] at hcount
          omega

/-- Two methods of one class: `print(boolean, int)`, and `print(boolean, String)` as method `true`. -/
def printEnv : CallEnv Unit Bool Unit where
  jvm := {
    className := fun _ => "Printer".toList
    declaringClass := fun _ => ()
    info := fun m => ⟨"print".toList,
      [.prim .Z, if m then .cls ⟨"java/lang/String".toList, by simp⟩ else .prim .I], none, false, none⟩
    findClass := fun _ => some ()
    getMethodID := fun _ _ _ => none
    getStaticMethodID := fun _ _ _ => none }
  isAssignableFrom := fun _ _ => true
  format := fun v => match v with
    | .string s => s
    | _ => []
  objectRaw := fun _ => ()

/-- `print(true, "x")` with the `int` overload first hands `true, true` to the `String` overload. -/
theorem print_not_sound : 1 ≤ luaLen ([.boolean true, .string ['x']] : List (Value Unit Unit)) ∧
    (∀ m ∈ [⟨false, ()⟩, ⟨true, ()⟩], FindsParams printEnv.jvm m) ∧
    ¬ SoundCall printEnv ⟨(), ()⟩ [⟨false, ()⟩, ⟨true, ()⟩] [.boolean true, .string ['x']]
      (call printEnv ⟨(), ()⟩ [⟨false, ()⟩, ⟨true, ()⟩] [.boolean true, .string ['x']]) := by
  refine ⟨by decide, fun _ _ _ _ _ _ _ => rfl, ?_⟩
  have hcall : call printEnv ⟨(), ()⟩ [⟨false, ()⟩, ⟨true, ()⟩] [.boolean true, .string ['x']] =
      .ok ⟨⟨true, ()⟩, (), 2, [⟨['Z'], .boolean true⟩, ⟨['Z'], .boolean true⟩]⟩ := by rfl
  rw [hcall]
  intro h
  exact absurd (matches_iff.mp h.2.2.1).2 (by decide)

/-- With the `String` overload first the call is sound. -/
theorem print_sound : SoundCall printEnv ⟨(), ()⟩ [⟨true, ()⟩, ⟨false, ()⟩] [.boolean true, .string ['x']]
    (call printEnv ⟨(), ()⟩ [⟨true, ()⟩, ⟨false, ()⟩] [.boolean true, .string ['x']]) :=
  (soundCall_iff printEnv ⟨(), ()⟩ [⟨true, ()⟩, ⟨false, ()⟩] [.boolean true, .string ['x']] (by decide)
    (fun _ _ _ _ _ _ _ => rfl)).mpr ⟨by decide, by decide, by decide, by decide⟩

end Exactness

end YellowTree
