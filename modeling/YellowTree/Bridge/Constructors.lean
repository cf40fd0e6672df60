import YellowTree.Bridge.Visibility

/-!
# YellowTree.Bridge.Constructors — `C.new(...)`

`C.new` is looked up like any other member: a field `new` comes first, then the constructors and the methods `new` of
`C`, of its superclasses and of their interfaces, and where there are none of these the members of `java.lang.Class`.
The call then takes the first candidate without parameters, or goes through the loops of `jcallable_method:__call`.

* `invokesOwn_iff`: when a call invokes one of a given kind of candidates, with parameters that accept the arguments,
  or raises the error.
* `constructsOwn_iff`: when `C.new(...)` runs a constructor of `C` itself, or raises the error.
-/

namespace YellowTree

open ListSplit

variable {Class Method Field Ref : Type}

/-! ## The loops, with classes that are not found -/

section Loops

variable (env : CallEnv Class Method Ref) (args : List (Value Class Ref))

/-- An object is matched against a class that `jclass.find` does not find. -/
def MissingClass (p : LuaString × Value Class Ref) : Prop :=
  ∃ raw c, p.2 = .object raw c ∧ ¬ (p.1.take 1 = ['['] ∧ env.jvm.className c = p.1) ∧
    (p.1.take 1 = ['L'] ∨ p.1.take 2 = ['[', 'L']) ∧ env.jvm.findClass (lookupName p.1) = none

/-- The classes that the arguments are matched against are found. -/
def FindsAll (m : JmethodId Class Method) : Prop := ∀ p ∈ (piecesOf env m).zip args, ¬ MissingClass env p

/-- The candidates with as many pieces as there are arguments. -/
def tried (ms : List (JmethodId Class Method)) : List (JmethodId Class Method) :=
  ms.filter fun m => (piecesOf env m).length == luaLen args

/-- `assert(tc)`. -/
def assertionFailed : LuaError := .message "assertion failed!"

variable {env args}

/-- The loop body fails exactly on a class that is not found. -/
theorem encodeArg_cases (env : CallEnv Class Method Ref) (t : LuaString) (v : Value Class Ref) :
    (MissingClass env (t, v) ∧ encodeArg env t v = .error assertionFailed) ∨
      (¬ MissingClass env (t, v) ∧ ∃ r, encodeArg env t v = .ok r) := by
  cases v with
  | object raw c =>
    by_cases harr : t.take 1 = ['['] ∧ env.jvm.className c = t
    · refine Or.inr ⟨?_, _, by rw [encodeArg, if_pos harr]⟩
      rintro ⟨raw', c', hobj, hnot, -⟩
      cases hobj
      exact hnot harr
    · by_cases hcls : t.take 1 = ['L'] ∨ t.take 2 = ['[', 'L']
      · cases hfind : env.jvm.findClass (lookupName t) with
        | none =>
          refine Or.inl ⟨⟨raw, c, rfl, harr, hcls, hfind⟩, ?_⟩
          rw [encodeArg, if_neg harr, if_pos hcls, hfind]
          rfl
        | some tc =>
          refine Or.inr ⟨?_, _, by rw [encodeArg, if_neg harr, if_pos hcls, hfind]⟩
          rintro ⟨raw', c', -, -, -, hnone⟩
          rw [hfind] at hnone
          cases hnone
      · refine Or.inr ⟨?_, _, by rw [encodeArg, if_neg harr, if_neg hcls]⟩
        rintro ⟨raw', c', -, -, hcls', -⟩
        exact hcls hcls'
  | _ =>
    refine Or.inr ⟨?_, _, rfl⟩
    rintro ⟨raw', c', hobj, -⟩
    cases hobj

/-- The pairs of the arguments that are accepted. -/
def acceptedPairs (env : CallEnv Class Method Ref) (ps : List (LuaString × Value Class Ref)) : List (JArg Ref) :=
  ps.filterMap fun p => (encodeArg env p.1 p.2).toOption.join

theorem acceptedPairs_cons {t : LuaString} {v : Value Class Ref} {r : Option (JArg Ref)}
    (h : encodeArg env t v = .ok r) (ps : List (LuaString × Value Class Ref)) :
    acceptedPairs env ((t, v) :: ps) = r.toList ++ acceptedPairs env ps := by
  cases r with
  | none =>
    have hnone : (encodeArg env t v).toOption.join = none := by rw [h]; rfl
    exact List.filterMap_cons_none hnone
  | some j =>
    have hsome : (encodeArg env t v).toOption.join = some j := by rw [h]; rfl
    exact List.filterMap_cons_some hsome

/-- The inner loop fails on a class that is not found, ends with too few pairs, or comes to the call. -/
theorem tryParams_cases {argc : ℕ} : ∀ (ps : List (LuaString × Value Class Ref)) (jargs : List (JArg Ref)),
    jargs.length < argc →
    ((∃ p ∈ ps, MissingClass env p) ∧ tryParams env argc ps jargs = .error assertionFailed) ∨
    ((∀ p ∈ ps, ¬ MissingClass env p) ∧ (jargs ++ acceptedPairs env ps).length < argc ∧
      tryParams env argc ps jargs = .ok (false, jargs ++ acceptedPairs env ps)) ∨
    (((∀ p ∈ ps, ¬ MissingClass env p) → argc ≤ (jargs ++ acceptedPairs env ps).length) ∧
      ∃ js, tryParams env argc ps jargs = .ok (true, js))
  | [], jargs, hlt => by
    have hnil : jargs ++ acceptedPairs env [] = jargs := List.append_nil _
    refine Or.inr (Or.inl ⟨fun p hp => by simp at hp, ?_, ?_⟩)
    · rw [hnil]; exact hlt
    · rw [hnil]; rfl
  | (t, v) :: ps, jargs, hlt => by
    rcases encodeArg_cases env t v with ⟨hmissing, herror⟩ | ⟨hfound, r, hok⟩
    · exact Or.inl ⟨⟨(t, v), List.mem_cons_self, hmissing⟩, by rw [tryParams, herror]⟩
    · have hpairs : jargs ++ acceptedPairs env ((t, v) :: ps) = (jargs ++ r.toList) ++ acceptedPairs env ps := by
        rw [acceptedPairs_cons hok, List.append_assoc]
      by_cases hfull : (jargs ++ r.toList).length = argc
      · refine Or.inr (Or.inr ⟨fun _ => ?_, jargs ++ r.toList, ?_⟩)
        · rw [hpairs, List.length_append]
          omega
        · rw [tryParams, hok]
          dsimp only
          rw [if_pos (by omega)]
      · have hstep : tryParams env argc ((t, v) :: ps) jargs = tryParams env argc ps (jargs ++ r.toList) := by
          rw [tryParams, hok]
          dsimp only
          rw [if_neg (by omega)]
        have hlt' : (jargs ++ r.toList).length < argc := by
          have hr : r.toList.length ≤ 1 := by cases r <;> simp
          rw [List.length_append] at hfull ⊢
          omega
        rw [hstep, hpairs]
        rcases tryParams_cases ps (jargs ++ r.toList) hlt' with ⟨⟨p, hp, hmissing⟩, herror⟩ |
          ⟨hall, hfew, hend⟩ | ⟨hmany, hcall⟩
        · exact Or.inl ⟨⟨p, List.mem_cons_of_mem _ hp, hmissing⟩, herror⟩
        · exact Or.inr (Or.inl ⟨List.forall_mem_cons.mpr ⟨hfound, hall⟩, hfew, hend⟩)
        · exact Or.inr (Or.inr ⟨fun hall => hmany (List.forall_mem_cons.mp hall).2, hcall⟩)

theorem allAccepted_append (ms ms' : List (JmethodId Class Method)) :
    allAccepted env args (ms ++ ms') = allAccepted env args ms ++ allAccepted env args ms' := List.flatMap_append

theorem allAccepted_cons (m : JmethodId Class Method) (ms : List (JmethodId Class Method)) :
    allAccepted env args (m :: ms) = accepted env (piecesOf env m) args ++ allAccepted env args ms := rfl

/-- How the outer loop ends: with no candidate left, at a candidate that is invoked, or at one with a class that is not
found.  The candidates before find their classes and accept too few arguments together. -/
inductive LoopEnd (env : CallEnv Class Method Ref) (args : List (Value Class Ref)) (argc : ℕ)
    (ms : List (JmethodId Class Method)) (jargs : List (JArg Ref)) :
    Except LuaError (Option (JmethodId Class Method × List (JArg Ref))) → Prop where
  | exhausted (hall : ∀ m ∈ ms, FindsAll env args m) (hfew : (jargs ++ allAccepted env args ms).length < argc) :
      LoopEnd env args argc ms jargs (.ok none)
  | invoked (pre : List (JmethodId Class Method)) (m : JmethodId Class Method) (post : List (JmethodId Class Method))
      (js : List (JArg Ref)) (hsplit : ms = pre ++ m :: post) (hall : ∀ m' ∈ pre, FindsAll env args m')
      (hfew : (jargs ++ allAccepted env args pre).length < argc)
      (hmany : FindsAll env args m →
        argc ≤ (jargs ++ allAccepted env args pre ++ accepted env (piecesOf env m) args).length) :
      LoopEnd env args argc ms jargs (.ok (some (m, js)))
  | failed (pre : List (JmethodId Class Method)) (m : JmethodId Class Method) (post : List (JmethodId Class Method))
      (hsplit : ms = pre ++ m :: post) (hfew : (jargs ++ allAccepted env args pre).length < argc)
      (hmissing : ¬ FindsAll env args m) :
      LoopEnd env args argc ms jargs (.error assertionFailed)

theorem LoopEnd.cons {argc : ℕ} {m : JmethodId Class Method} {ms : List (JmethodId Class Method)}
    {jargs : List (JArg Ref)} {r : Except LuaError (Option (JmethodId Class Method × List (JArg Ref)))}
    (hm : FindsAll env args m)
    (hend : LoopEnd env args argc ms (jargs ++ accepted env (piecesOf env m) args) r) :
    LoopEnd env args argc (m :: ms) jargs r := by
  have hcons : ∀ l, jargs ++ accepted env (piecesOf env m) args ++ allAccepted env args l =
      jargs ++ allAccepted env args (m :: l) := fun l => by rw [allAccepted_cons, List.append_assoc]
  cases hend with
  | exhausted hall hfew =>
    rw [hcons] at hfew
    exact .exhausted (List.forall_mem_cons.mpr ⟨hm, hall⟩) hfew
  | invoked pre m' post js hsplit hall hfew hmany =>
    rw [hcons] at hfew hmany
    exact .invoked (m :: pre) m' post js (by rw [hsplit]; rfl) (List.forall_mem_cons.mpr ⟨hm, hall⟩) hfew hmany
  | failed pre m' post hsplit hfew hmissing =>
    rw [hcons] at hfew
    exact .failed (m :: pre) m' post (by rw [hsplit]; rfl) hfew hmissing

theorem tryMethods_end {argc : ℕ} : ∀ (ms : List (JmethodId Class Method)) (jargs : List (JArg Ref)),
    (∀ m ∈ ms, atypes env.jvm m = piecesOf env m) → jargs.length < argc →
    LoopEnd env args argc ms jargs (tryMethods env argc args ms jargs)
  | [], jargs, _, hlt => .exhausted (fun m hm => by simp at hm) (by simpa [allAccepted] using hlt)
  | m :: ms, jargs, hat, hlt => by
    have hnil : jargs ++ allAccepted env args [] = jargs := List.append_nil _
    have hatm : atypes env.jvm m = piecesOf env m := hat m List.mem_cons_self
    rw [tryMethods, hatm]
    rcases tryParams_cases ((piecesOf env m).zip args) jargs hlt with ⟨⟨p, hp, hmissing⟩, herror⟩ |
      ⟨hall, hfew, hend⟩ | ⟨hmany, js, hcall⟩
    · rw [herror]
      exact .failed [] m ms rfl (by rw [hnil]; exact hlt) fun hm => hm p hp hmissing
    · rw [hend]
      exact .cons hall (tryMethods_end ms _ (fun m' hm' => hat m' (List.mem_cons_of_mem _ hm')) hfew)
    · rw [hcall]
      refine .invoked [] m ms js rfl (fun m' hm' => by simp at hm') (by rw [hnil]; exact hlt) fun hm => ?_
      rw [hnil]
      exact hmany hm

end Loops

/-! ## Calls that invoke one of a given kind of candidates -/

section InvokesOwn

variable (env : CallEnv Class Method Ref) (own : JmethodId Class Method → Prop)
  (ms : List (JmethodId Class Method)) (args : List (Value Class Ref))

/-- The method that is invoked is one of the kind `own` and accepts the arguments, or the error is raised. -/
def InvokesOwn : Except LuaError (Invocation Class Method Ref) → Prop
  | .ok inv => own inv.method ∧ accepts env args inv.method = true
  | .error e => e = noMatchingMethod

/-- The first loop ends at such a candidate when there are no arguments: no parameters, or a parenthesis in the name
of its return type. -/
def endsFirstLoop (jvm : Jvm Class Method) (m : JmethodId Class Method) : Bool :=
  ')' ∈ retText (m.info jvm).ret || (m.info jvm).params = []

/-- A candidate of the kind that accepts the arguments, and before it none with a class that is not found and too few
accepted arguments together. -/
def ReachesOwn : Prop :=
  ∃ pre m post, tried env args ms = pre ++ m :: post ∧ own m ∧ accepts env args m = true ∧
    (∀ m' ∈ pre, FindsAll env args m') ∧ (allAccepted env args pre).length < luaLen args

/-- No class that is not found and too few accepted arguments, all candidates together. -/
def RefusesAll : Prop :=
  (∀ m ∈ tried env args ms, FindsAll env args m) ∧ (allAccepted env args (tried env args ms)).length < luaLen args

/-- When a call invokes one of the kind, or raises the error. -/
def OwnCondition : Prop :=
  if luaLen args = 0 then
    ∀ m, ms.find? (endsFirstLoop env.jvm) = some m → ')' ∉ retText (m.info env.jvm).ret ∧ own m
  else
    (∀ m ∈ ms, ')' ∉ retText (m.info env.jvm).ret) ∧ (ReachesOwn env own ms args ∨ RefusesAll env ms args)

variable {env own ms args}

theorem not_invokesOwn_error {e : LuaError} (he : e ≠ noMatchingMethod) : ¬ InvokesOwn env own args (.error e) := he

theorem args_eq_nil_iff {m : MethodInfo} : m.args = [] ↔ ')' ∉ retText m.ret ∧ m.params = [] := by
  by_cases hparen : ')' ∈ retText m.ret
  · refine iff_of_false (fun hnil => ?_) fun hboth => hboth.1 hparen
    have hnone := m.parse_args_eq_none hparen
    rw [hnil] at hnone
    cases hnone
  · rw [m.args_eq hparen, and_iff_right hparen]
    constructor
    · intro hnil
      cases hparams : m.params with
      | nil => rfl
      | cons t ts =>
        rw [hparams, List.flatMap_cons, List.append_eq_nil_iff] at hnil
        cases t <;> cases hnil.1
    · intro hparams
      rw [hparams]
      rfl

/-- The error of `parse_arg_spec`. -/
def parseError : LuaError := .message "attempt to perform arithmetic on local 'endi' (a nil value)"

/-- The first loop without arguments ends at the first candidate without parameters, or fails before it. -/
theorem filterMethods_zero (jvm : Jvm Class Method) : ∀ ms : List (JmethodId Class Method),
    filterMethods jvm 0 ms =
      match ms.find? (endsFirstLoop jvm) with
      | none => .ok (.methods [])
      | some m => if ')' ∈ retText (m.info jvm).ret then .error parseError else .ok (.invoke m)
  | [] => rfl
  | m :: ms => by
    by_cases hparen : ')' ∈ retText (m.info jvm).ret
    · have hargs : (m.info jvm).args ≠ [] := fun hnil => (args_eq_nil_iff.mp hnil).1 hparen
      have hends : endsFirstLoop jvm m = true := by simp [endsFirstLoop, hparen]
      rw [filterMethods, if_neg fun hboth => hargs hboth.2, MethodInfo.parse_args_eq_none hparen,
        List.find?_cons_of_pos hends]
      dsimp only
      rw [if_pos hparen]
      rfl
    · by_cases hparams : (m.info jvm).params = []
      · have hends : endsFirstLoop jvm m = true := by simp [endsFirstLoop, hparams]
        rw [filterMethods, if_pos ⟨rfl, args_eq_nil_iff.mpr ⟨hparen, hparams⟩⟩, List.find?_cons_of_pos hends]
        dsimp only
        rw [if_neg hparen]
      · have hargs : (m.info jvm).args ≠ [] := fun hnil => hparams (args_eq_nil_iff.mp hnil).2
        have hends : ¬ endsFirstLoop jvm m = true := by simp [endsFirstLoop, hparen, hparams]
        have hpieces : ((m.info jvm).params.flatMap FieldType.pieces).length ≠ 0 := by
          have hle := length_le_length_flatMap_pieces (m.info jvm).params
          have hpos := List.length_pos_of_ne_nil hparams
          omega
        rw [filterMethods, if_neg fun hboth => hargs hboth.2, MethodInfo.parse_args hparen,
          List.find?_cons_of_neg hends, ← filterMethods_zero jvm ms]
        rcases filterMethods jvm 0 ms with e | m' | ms'
        · rfl
        · rfl
        · exact congrArg _ (congrArg _ (if_neg hpieces))

/-- A call without arguments. -/
theorem call_zero (object : Receiver Class Ref) (ms : List (JmethodId Class Method)) (hzero : luaLen args = 0) :
    call env object ms args =
      match ms.find? (endsFirstLoop env.jvm) with
      | none => .error noMatchingMethod
      | some m =>
        if ')' ∈ retText (m.info env.jvm).ret then .error parseError
        else .ok ⟨m, receiver env object m, 0, []⟩ := by
  rw [call, hzero, filterMethods_zero]
  cases ms.find? (endsFirstLoop env.jvm) with
  | none => rfl
  | some m =>
    by_cases hparen : ')' ∈ retText (m.info env.jvm).ret
    · simp only [if_pos hparen]
    · simp only [if_neg hparen]

/-- With arguments, every candidate is parsed. -/
theorem call_of_paren (object : Receiver Class Ref) (hpos : 1 ≤ luaLen args)
    (hparen : ¬ ∀ m ∈ ms, ')' ∉ retText (m.info env.jvm).ret) : call env object ms args = .error parseError := by
  rw [call, filterMethods_error hpos ms hparen]
  rfl

theorem invokesOwn_zero (object : Receiver Class Ref) (hzero : luaLen args = 0) :
    InvokesOwn env own args (call env object ms args) ↔
      ∀ m, ms.find? (endsFirstLoop env.jvm) = some m → ')' ∉ retText (m.info env.jvm).ret ∧ own m := by
  rw [call_zero object ms hzero]
  cases hfind : ms.find? (endsFirstLoop env.jvm) with
  | none => exact iff_of_true rfl fun m hm => by cases hm
  | some m =>
    dsimp only
    by_cases hparen : ')' ∈ retText (m.info env.jvm).ret
    · rw [if_pos hparen]
      exact iff_of_false (not_invokesOwn_error (by decide)) fun hcond => (hcond m rfl).1 hparen
    · rw [if_neg hparen]
      have hparams : (m.info env.jvm).params = [] := by
        have hends := List.find?_some hfind
        unfold endsFirstLoop at hends
        simpa [hparen] using hends
      have haccepts : accepts env args m = true := by
        rw [accepts, ownArgs, hparams, hzero]
        rfl
      constructor
      · rintro ⟨hown, -⟩ m' hm'
        obtain rfl := Option.some.inj hm'
        exact ⟨hparen, hown⟩
      · intro hcond
        exact ⟨(hcond m rfl).2, haccepts⟩

/-- A tried candidate that accepts the arguments finds its classes, and completes the pairs. -/
theorem findsAll_of_accepts {m : JmethodId Class Method} (hm : m ∈ tried env args ms)
    (haccepts : accepts env args m = true) :
    FindsAll env args m ∧ (accepted env (piecesOf env m) args).length = luaLen args := by
  have hpieces : (piecesOf env m).length = luaLen args := beq_iff_eq.mp (List.mem_filter.mp hm).2
  have hparams : (m.info env.jvm).params.length = luaLen args := by
    rw [accepts, Bool.and_eq_true, beq_iff_eq] at haccepts
    exact haccepts.1
  have hflat := flat_of_length_pieces (hpieces.trans hparams.symm)
  have hlen : (accepted env (piecesOf env m) args).length = luaLen args := by
    rw [(piecesOf_of_accepts haccepts hflat).2]
    exact length_ownArgs haccepts
  refine ⟨fun p hp hmissing => ?_, hlen⟩
  -- no pair is filtered out
  have hzip : ((piecesOf env m).zip args).length = luaLen args := by
    have hle := luaLen_le args
    rw [List.length_zip]
    omega
  have hall := List.filterMap_length_eq_length.mp (hlen.trans hzip.symm) p hp
  rcases encodeArg_cases env p.1 p.2 with ⟨-, herror⟩ | ⟨hfound, -⟩
  · rw [herror] at hall
    cases hall
  · exact hfound hmissing

/-- A call with arguments. -/
theorem invokesOwn_pos (object : Receiver Class Ref) (hpos : 1 ≤ luaLen args)
    (hret : ∀ m ∈ ms, ')' ∉ retText (m.info env.jvm).ret) :
    InvokesOwn env own args (call env object ms args) ↔ ReachesOwn env own ms args ∨ RefusesAll env ms args := by
  have hcall := call_pos object hpos ms hret
  have htried : (ms.filter fun m => (piecesOf env m).length == luaLen args) = tried env args ms := rfl
  rw [htried] at hcall
  have hat : ∀ m ∈ tried env args ms, atypes env.jvm m = piecesOf env m := by
    intro m hm
    exact atypes_eq (hret m (List.mem_filter.mp hm).1)
  have hend : LoopEnd env args (luaLen args) (tried env args ms) []
      (tryMethods env (luaLen args) args (tried env args ms) []) := tryMethods_end _ _ hat hpos
  -- a candidate of the kind is not reached when too few arguments are accepted by those up to it
  have hreached : ∀ {pre m post l}, tried env args ms = pre ++ m :: post → accepts env args m = true →
      ¬ (allAccepted env args (pre ++ m :: l)).length < luaLen args := by
    intro pre m post l hsplit haccepts hfew
    have hm : m ∈ tried env args ms := by rw [hsplit]; simp
    have hlen := (findsAll_of_accepts hm haccepts).2
    rw [allAccepted_append, allAccepted_cons, List.length_append, List.length_append] at hfew
    omega
  generalize hr : tryMethods env (luaLen args) args (tried env args ms) [] = r at hcall hend
  cases hend with
  | exhausted hall hfew =>
    rw [hcall]
    exact iff_of_true rfl (Or.inr ⟨hall, hfew⟩)
  | invoked pre m post js hsplit hall hfew hmany =>
    rw [hcall]
    constructor
    · rintro ⟨hown, haccepts⟩
      exact Or.inl ⟨pre, m, post, hsplit, hown, haccepts, hall, hfew⟩
    · rintro (⟨pre', m', post', hsplit', hown, haccepts, hall', hfew'⟩ | ⟨hall', hfew'⟩)
      · rcases split_cases (hsplit.symm.trans hsplit') with ⟨-, rfl, -⟩ | ⟨l, rfl⟩ | ⟨l, rfl⟩
        · exact ⟨hown, haccepts⟩
        · have hge := hmany (hall' m (by simp))
          rw [List.nil_append, List.length_append] at hge
          rw [allAccepted_append, allAccepted_cons, List.length_append, List.length_append] at hfew'
          omega
        · exact absurd hfew (hreached hsplit' haccepts)
      · have hge := hmany (hall' m (by rw [hsplit]; simp))
        rw [List.nil_append, List.length_append] at hge
        rw [hsplit, allAccepted_append, allAccepted_cons, List.length_append, List.length_append] at hfew'
        omega
  | failed pre m post hsplit hfew hmissing =>
    rw [hcall]
    refine iff_of_false (not_invokesOwn_error (by decide)) ?_
    rintro (⟨pre', m', post', hsplit', hown, haccepts, hall', hfew'⟩ | ⟨hall', hfew'⟩)
    · rcases split_cases (hsplit.symm.trans hsplit') with ⟨-, rfl, -⟩ | ⟨l, rfl⟩ | ⟨l, rfl⟩
      · exact hmissing (findsAll_of_accepts (by rw [hsplit']; simp) haccepts).1
      · exact hmissing (hall' m (by simp))
      · exact absurd hfew (hreached hsplit' haccepts)
    · exact hmissing (hall' m (by rw [hsplit]; simp))

/-- **A call invokes one of the kind**, or raises the error, exactly under `OwnCondition`. -/
theorem invokesOwn_iff (object : Receiver Class Ref) :
    InvokesOwn env own args (call env object ms args) ↔ OwnCondition env own ms args := by
  unfold OwnCondition
  by_cases hzero : luaLen args = 0
  · rw [if_pos hzero]
    exact invokesOwn_zero object hzero
  · rw [if_neg hzero]
    have hpos : 1 ≤ luaLen args := Nat.one_le_iff_ne_zero.mpr hzero
    by_cases hret : ∀ m ∈ ms, ')' ∉ retText (m.info env.jvm).ret
    · rw [and_iff_right hret]
      exact invokesOwn_pos object hpos hret
    · refine iff_of_false ?_ fun hcond => hret hcond.1
      rw [call_of_paren object hpos hret]
      exact not_invokesOwn_error (by decide)

end InvokesOwn

/-! ## `C.new` -/

section New

variable (h : Hierarchy Class Method Field Ref) (c : Class) (args : List (Value Class Ref))

/-- `C.new(args)`.  A field is no function, and neither is nil; the text of that error ends with the type. -/
def callNew (t : BridgeTables Class) : Except LuaError (Invocation Class Method Ref) :=
  match index h (rawKeys t) (.jclass c) "new".toList with
  | .callable _ object ms => call h.toCallEnv object ms args
  | _ => .error (.message "attempt to call field 'new'")

/-- A constructor that the class declares itself. -/
def OwnConstructor (m : JmethodId Class Method) : Prop :=
  m.methodIdRaw ∈ h.methods c ∧ (m.info h.jvm).name = "<init>".toList

/-- The outcome is a call of a constructor of `c` itself whose parameters accept the arguments, or the error. -/
def ConstructsOwn (t : BridgeTables Class) : Prop :=
  InvokesOwn h.toCallEnv (OwnConstructor h c) args (callNew h c args t)

/-- The candidates of `C.new`: those of `c`, or else those of `java.lang.Class`; none where a field comes first. -/
def newCandidates : List (JmethodId Class Method) :=
  if findField h c "new".toList ≠ none then []
  else if findMethods h c "new".toList ≠ [] then findMethods h c "new".toList
  else if findField h h.javaLangClass "new".toList ≠ none then []
  else findMethods h h.javaLangClass "new".toList

variable {h c args}

theorem rawKeys_new (t : BridgeTables Class) :
    rawKeys t (.jclass c : BridgeValue Class Ref) "new".toList = false := by
  have hkeys : ∀ b b' : Bool, (["object_raw".toList, "class".toList, "name".toList, "internal_name".toList,
      "fields".toList, "fields_array".toList, "methods".toList, "methods_array".toList] ++
      (if b then ["sourcefile".toList] else []) ++ [] ++ jclassKeys b').contains "new".toList = false := by decide
  exact hkeys (t.hasSourcefile c) t.allClassesLoaded

theorem callNew_eq (t : BridgeTables Class) : callNew h c args t =
    if newCandidates h c = [] then .error (.message "attempt to call field 'new'")
    else call h.toCallEnv (h.self (.jclass c)) (newCandidates h c) args := by
  unfold callNew index
  rw [if_neg (by rw [rawKeys_new]; decide)]
  dsimp only
  unfold jclassIndex jobjectIndex resolveIn newCandidates
  cases hfield : findField h c "new".toList with
  | some f => simp
  | none =>
    dsimp only
    cases hms : findMethods h c "new".toList with
    | cons m ms => simp
    | nil =>
      have hself : (h.self (.jclass c)).cls = h.javaLangClass := rfl
      dsimp only
      rw [hself]
      cases hfield' : findField h h.javaLangClass "new".toList with
      | some f => simp
      | none =>
        dsimp only
        cases hms' : findMethods h h.javaLangClass "new".toList with
        | cons m ms => simp
        | nil => simp

/-- **`C.new(...)` constructs with a constructor of `C` itself**, or raises the error, exactly when there are
candidates and they meet `OwnCondition`. -/
theorem constructsOwn_iff (h : Hierarchy Class Method Field Ref) (t : BridgeTables Class) (c : Class)
    (args : List (Value Class Ref)) :
    ConstructsOwn h c args t ↔ newCandidates h c ≠ [] ∧
      OwnCondition h.toCallEnv (OwnConstructor h c) (newCandidates h c) args := by
  unfold ConstructsOwn
  rw [callNew_eq]
  by_cases hnone : newCandidates h c = []
  · rw [if_pos hnone]
    exact iff_of_false (not_invokesOwn_error (by decide)) fun hcond => hcond.1 hnone
  · rw [if_neg hnone, invokesOwn_iff, and_iff_right hnone]

/-- A book cannot be made without its number: the constructor of `java.lang.Object` runs instead. -/
theorem book_not_constructsOwn : ¬ ConstructsOwn bookClasses.toHierarchy .book [] ⟨false, fun _ => true⟩ := by
  have hcall : callNew bookClasses.toHierarchy .book [] ⟨false, fun _ => true⟩ =
      .ok ⟨⟨.objectInit, .book⟩, some .book, 0, []⟩ := by
    rw [callNew_eq]
    rfl
  unfold ConstructsOwn
  rw [hcall]
  rintro ⟨⟨hmem, -⟩, -⟩
  exact absurd hmem (by decide)

end New

end YellowTree
