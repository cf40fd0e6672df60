import YellowTree.Bridge.MemberSearch
import YellowTree.Bridge.NativeFunctions

/-!
# YellowTree.Bridge.NativeAgreement — `lj_call_method` by calls and by values

`Native.ljCallMethod` is the C function with the calls that it makes; `MarshalEnv.marshal` and `ljCallMethod` say what
it makes of its arguments and of what the method returns.  `callMethod_agrees`: against a JVM that replies with the
method's name and result the two agree.
-/

namespace YellowTree

namespace Native

open ApiProgram

variable {Class Ref : Type}

/-! ## Arguments -/

section Arguments

/-- The second half of a pair on the Lua stack. -/
def ofJVal : JVal Ref → CValue Ref
  | .text s => .string s
  | .boolean b => .boolean b
  | .number n => .number n
  | .userdata r => .jobject r

/-- The pairs on the Lua stack. -/
def ofPairs (pairs : List (JArg Ref)) : List (CValue Ref) := pairs.flatMap fun arg => [.string arg.tag, ofJVal arg.val]

/-- A String is passed as the reference that NewStringUTF has given. -/
def passedAs (newRef : JavaString → Ref) : JValue Ref → JValue Ref
  | .string s => .reference (some (newRef s))
  | v => v

variable {e : MarshalEnv} {reply : (o : ApiOp Ref) → Option o.Reply} {newRef : JavaString → Ref}

theorem checkNumber_ofJVal (v : JVal Ref) : checkNumber e (some (ofJVal v)) = e.checkNumber v := by
  cases v <;> rfl

theorem checkInteger_ofJVal (v : JVal Ref) : checkInteger e (some (ofJVal v)) = e.checkInteger v :=
  congrArg (Except.map e.cast.cast) (checkNumber_ofJVal v)

theorem checkString_ofJVal (v : JVal Ref) : checkString e (some (ofJVal v)) = (e.checkString v).map cString := by
  cases v <;> rfl

theorem checkJobject_ofJVal (v : JVal Ref) : checkJobject (some (ofJVal v)) = MarshalEnv.checkJobject v := by
  cases v <;> rfl

theorem checkBoolean_ofJVal (v : JVal Ref) : checkBoolean (some (ofJVal v)) = MarshalEnv.checkBoolean v := by
  cases v <;> rfl

theorem eval_integerArg (p : PrimType) (v : JVal Ref) :
    (integerArg e p (some (ofJVal v))).eval reply = some ((e.integerMember p v).map (passedAs newRef)) := by
  rw [integerArg, Prog.eval_ofExcept, checkInteger_ofJVal, MarshalEnv.integerMember]
  cases e.checkInteger v <;> rfl

/-- A test that both make. -/
theorem eval_ite {α β : Type} {c : Prop} [Decidable c] {p q : NativeProg Ref β} {x y : Except LuaError α} {f : α → β}
    (hp : p.eval reply = some (x.map f)) (hq : q.eval reply = some (y.map f)) :
    (if c then p else q).eval reply = some ((if c then x else y).map f) := by
  by_cases hc : c
  · rw [if_pos hc, if_pos hc, hp]
  · rw [if_neg hc, if_neg hc, hq]

/-- A check that both make. -/
theorem eval_check {α β γ : Type} {x y : Except LuaError α} {f : α → γ} {g : γ → β} {k : α → NativeProg Ref β}
    (hxy : x = y) (hk : ∀ a, (k a).eval reply = some (.ok (g (f a)))) :
    (Prog.ofExcept x >>= k).eval reply = some ((y.map f).map g) := by
  subst hxy
  rw [Prog.eval_bind (Prog.eval_ofExcept x)]
  cases x with
  | error err => rfl
  | ok a => exact hk a

/-- NewStringUTF gives the reference of the text. -/
def NewStrings (reply : (o : ApiOp Ref) → Option o.Reply) (e : MarshalEnv) (newRef : JavaString → Ref) : Prop :=
  ∀ s, reply (.newStringUTF s) = some (some (newRef (e.jni.newStringUTF (bytes s))))

theorem eval_readArg (hstring : NewStrings reply e newRef) (arg : JArg Ref) :
    (readArg e arg.tag (some (ofJVal arg.val))).eval reply = some ((e.marshalArg arg).map (passedAs newRef)) := by
  unfold readArg MarshalEnv.marshalArg
  refine eval_ite rfl (eval_ite ?_ (eval_ite ?_ (eval_ite ?_ ?_)))
  · exact eval_check (checkJobject_ofJVal arg.val) fun r => rfl
  · rw [checkString_ofJVal, Prog.eval_bind (Prog.eval_ofExcept _)]
    cases e.checkString arg.val with
    | error err => rfl
    | ok s => exact Prog.eval_call (hstring (cString s)) _
  · exact eval_check (checkBoolean_ofJVal arg.val) fun b => rfl
  · refine eval_ite (eval_integerArg .B arg.val) (eval_ite (eval_integerArg .C arg.val) ?_)
    refine eval_ite (eval_integerArg .S arg.val) (eval_ite (eval_integerArg .I arg.val) ?_)
    refine eval_ite (eval_integerArg .J arg.val) (eval_ite ?_ (eval_ite ?_ rfl))
    · exact eval_check (checkNumber_ofJVal arg.val) fun n => rfl
    · exact eval_check (checkNumber_ofJVal arg.val) fun n => rfl

theorem eval_readArgs (hstring : NewStrings reply e newRef) {pairs : List (JArg Ref)}
    (htags : ∀ arg ∈ pairs, Char.ofNat 0 ∉ arg.tag) :
    (readArgs e pairs.length (ofPairs pairs)).eval reply =
      some ((e.marshal pairs.length pairs).map (List.map (passedAs newRef))) := by
  induction pairs with
  | nil => rfl
  | cons arg pairs ih =>
    obtain ⟨htag, htags⟩ := List.forall_mem_cons.mp htags
    have harg := eval_readArg hstring arg
    have hread : (readArgs e (arg :: pairs).length (ofPairs (arg :: pairs))).eval reply =
        (readArg e arg.tag (some (ofJVal arg.val)) >>= fun v =>
          readArgs e pairs.length (ofPairs pairs) >>= fun vs => pure (v :: vs)).eval reply := by
      rw [List.length_cons, readArgs, Prog.eval_bind (Prog.eval_ofExcept _)]
      show Prog.eval reply (readArg e (cString arg.tag) (some (ofJVal arg.val)) >>= _) = _
      rw [cString_eq_self htag]
      rfl
    rw [hread, Prog.eval_bind harg, List.length_cons, MarshalEnv.marshal]
    cases e.marshalArg arg with
    | error err => rfl
    | ok v =>
      refine (Prog.eval_bind (ih htags) _).trans ?_
      cases e.marshal pairs.length pairs <;> rfl

end Arguments

/-! ## Results -/

section Results

variable {e : MarshalEnv} {reply : (o : ApiOp Ref) → Option o.Reply} {newRef : JavaString → Ref}

/-- What JNI replies for a value; it does not give the class of an object. -/
def ofResult : JavaResult Class Ref → JniValue Ref
  | .void => .void
  | .boolean b => .boolean b
  | .integer n => .integer n
  | .floating x => .floating x
  | .reference o => .reference (o.map Prod.fst)

/-- What is pushed. -/
def ofPushed : Pushed Class Ref → CValue Ref
  | .nil => .nil
  | .boolean b => .boolean b
  | .number x => .number x
  | .string s => .string s
  | .jobject raw _ => .jobject raw

/-- A JVM in which the method has this name and returns this value for the arguments, and strings have their texts. -/
structure RepliesWith (reply : (o : ApiOp Ref) → Option o.Reply) (e : MarshalEnv) (newRef : JavaString → Ref)
    (env : ReturnEnv Class Ref) (m : MethodInfo) (o method : Ref) (pairs : List (JArg Ref)) (r : JavaResult Class Ref) :
    Prop where
  name : ∃ b, reply (.getMethodName method) = some (.ok (m.name, b))
  newString : NewStrings reply e newRef
  call : ∀ args, e.marshal pairs.length pairs = .ok args →
    reply (.callMethod (properCall m) o method (args.map (passedAs newRef))) = some (ofResult r)
  chars : ∀ raw u, env.text raw = some u → reply (.getStringUTFChars (some raw)) = some (some (YellowTree.newString u))
  release : ∀ s, reply (.releaseStringUTFChars s) = some ()
  deallocate : ∀ b, reply (.deallocate b) = some ()
  check : ∃ pending, reply .exceptionCheck = some pending
  describe : reply .exceptionDescribe = some ()
  clear : reply .exceptionClear = some ()

variable {env : ReturnEnv Class Ref} {m : MethodInfo} {o method : Ref} {pairs : List (JArg Ref)}
  {r : JavaResult Class Ref} {ret : LuaString}

theorem eval_exceptionCheck (h : RepliesWith reply e newRef env m o method pairs r) :
    (exceptionCheck : NativeProg Ref Unit).eval reply = some (.ok ()) := by
  obtain ⟨pending, hpending⟩ := h.check
  refine (Prog.eval_call hpending _).trans ?_
  cases pending with
  | false => rfl
  | true => exact (Prog.eval_call h.describe _).trans (Prog.eval_call h.clear _)

theorem eval_pushValue (h : RepliesWith reply e newRef env m o method pairs r) {vs : List (Pushed Class Ref)}
    (hpush : pushResult env ret r = .ok vs) :
    (pushValue ret (ofResult r) : NativeProg Ref _).eval reply = some (.ok (vs.map ofPushed)) := by
  cases r with
  | reference ref =>
    rw [pushResult] at hpush
    unfold ofResult pushValue
    by_cases hstring : pushesString ret = true
    · rw [if_pos hstring] at hpush
      cases ref with
      | none => cases hpush
      | some ref =>
        obtain ⟨raw, c⟩ := ref
        rw [pushString] at hpush
        cases htext : env.text raw with
        | none =>
          rw [htext] at hpush
          cases hpush
        | some u =>
          rw [htext] at hpush
          cases hpush
          have hnew : (newString (some raw) : NativeProg Ref _).eval reply =
              some (.ok (.string (YellowTree.newString u))) := by
            refine (Prog.eval_call (h.chars raw u htext) _).trans ((Prog.eval_call (h.release _) _).trans ?_)
            exact Prog.eval_bind (eval_exceptionCheck h) _
          show Prog.eval reply (if pushesString ret then _ else _) = _
          rw [if_pos hstring]
          exact Prog.eval_bind hnew _
    · rw [if_neg hstring] at hpush
      cases hpush
      show Prog.eval reply (if pushesString ret then _ else _) = _
      rw [if_neg hstring]
      cases ref <;> rfl
  | _ =>
    cases hpush
    rfl

/-- `lj_call_method` by values: the arguments, and what the method returns. -/
def callByValue (e : MarshalEnv) (env : ReturnEnv Class Ref) (m : MethodInfo) (ret : LuaString)
    (pairs : List (JArg Ref)) (r : JavaResult Class Ref) : Outcome (List (Pushed Class Ref)) :=
  match e.marshal pairs.length pairs with
  | .ok _ => YellowTree.ljCallMethod env m ret r
  | .error err => .error err

/-- The stack of `lj_call_method`. -/
def callArgs (m : MethodInfo) (o method : Ref) (ret : LuaString) (n : LuaNumber) (pairs : List (JArg Ref)) :
    List (CValue Ref) :=
  .jobject o :: .jmethodId method :: .boolean m.isStatic :: .string ret :: .number n :: ofPairs pairs

/-- After the arguments: the call, and what it returns. -/
def callAndPush (m : MethodInfo) (o method : Ref) (ret : LuaString) (b : ℕ) (jargs : List (JValue Ref)) :
    NativeProg Ref (List (CValue Ref)) :=
  match callFor m.name m.isStatic ret with
  | none => .raise (.message "Unknown return type")
  | some call => do
    let val ← api (.callMethod call o method jargs)
    exceptionCheck
    let results ← pushValue ret val
    freeJvmtiRefs [b]
    return results

theorem eval_ljCallMethod (h : RepliesWith reply e newRef env m o method pairs r) {n : LuaNumber}
    (hn : narrow .I (e.cast.cast n) = pairs.length) (hret : Char.ofNat 0 ∉ ret)
    (htags : ∀ arg ∈ pairs, Char.ofNat 0 ∉ arg.tag) : ∃ b,
    (ljCallMethod e (callArgs m o method ret n pairs)).eval reply =
      Prog.andThen ((e.marshal pairs.length pairs).map (List.map (passedAs newRef))) fun jargs =>
        (callAndPush m o method ret b jargs).eval reply := by
  obtain ⟨b, hname⟩ := h.name
  refine ⟨b, ?_⟩
  have hargs : (readArgs e (narrow .I (e.cast.cast n)).toNat (ofPairs pairs)).eval reply =
      some ((e.marshal pairs.length pairs).map (List.map (passedAs newRef))) := by
    rw [hn]
    exact eval_readArgs h.newString htags
  refine (Prog.eval_call hname _).trans ?_
  refine (Prog.eval_bind hargs _).trans ?_
  have hcast : cString ret = ret := cString_eq_self hret
  simp only [hcast]
  rfl

theorem callFor_eq_jniCall : callFor m.name m.isStatic ret = jniCall m ret := rfl

theorem pushResult_ne_error {err : LuaError} : pushResult env ret r ≠ .error err := by
  intro herr
  cases r with
  | reference ref =>
    rw [pushResult] at herr
    split_ifs at herr with hstring
    rcases ref with _ | ⟨raw, c⟩
    · cases herr
    · rw [pushString] at herr
      cases htext : env.text raw <;> rw [htext] at herr <;> cases herr
  | _ => cases herr

theorem eval_callAndPush (h : RepliesWith reply e newRef env m o method pairs r) (b : ℕ) {args : List (JValue Ref)}
    (hargs : e.marshal pairs.length pairs = .ok args) :
    (∀ vs, YellowTree.ljCallMethod env m ret r = .ok vs →
      (callAndPush m o method ret b (args.map (passedAs newRef))).eval reply = some (.ok (vs.map ofPushed))) ∧
    ∀ err, YellowTree.ljCallMethod env m ret r = .error err →
      (callAndPush m o method ret b (args.map (passedAs newRef))).eval reply = some (.error err) := by
  unfold YellowTree.ljCallMethod callAndPush
  rw [callFor_eq_jniCall]
  cases jniCall m ret with
  | none =>
    refine ⟨fun _ hok => (nomatch hok), fun err herr => ?_⟩
    cases herr
    rfl
  | some call =>
    constructor
    · intro vs hok
      dsimp only at hok
      split_ifs at hok with hproper
      subst hproper
      refine (Prog.eval_call (h.call args hargs) _).trans ?_
      refine (Prog.eval_bind (eval_exceptionCheck h) _).trans ?_
      refine (Prog.eval_bind (eval_pushValue h hok) _).trans ?_
      exact (Prog.eval_call (h.deallocate b) _)
    · intro err herr
      dsimp only at herr
      split_ifs at herr
      exact absurd herr pushResult_ne_error

/-- **The call that Lua makes ends as the values say**: whatever the arguments, the checks fail or succeed alike, the
method is called with the same values and what it returns is pushed alike. -/
theorem callMethod_agrees (h : RepliesWith reply e newRef env m o method pairs r) {n : LuaNumber}
    (hn : narrow .I (e.cast.cast n) = pairs.length) (hret : Char.ofNat 0 ∉ ret)
    (htags : ∀ arg ∈ pairs, Char.ofNat 0 ∉ arg.tag) :
    (∀ vs, callByValue e env m ret pairs r = .ok vs →
      (ljCallMethod e (callArgs m o method ret n pairs)).eval reply = some (.ok (vs.map ofPushed))) ∧
    ∀ err, callByValue e env m ret pairs r = .error err →
      (ljCallMethod e (callArgs m o method ret n pairs)).eval reply = some (.error err) := by
  obtain ⟨b, heval⟩ := eval_ljCallMethod h hn hret htags
  rw [heval]
  unfold callByValue
  cases hargs : e.marshal pairs.length pairs with
  | error err =>
    refine ⟨fun _ hok => (nomatch hok), fun err' herr => ?_⟩
    cases herr
    rfl
  | ok args => exact eval_callAndPush h b hargs

/-- `int indexOf(String)` of a String, and a JVM in which it returns 2. -/
def indexOf : MethodInfo :=
  ⟨"indexOf".toList, [.cls ⟨"java/lang/String".toList, stringName_legal⟩], some (.prim .I), false, none⟩

def indexOfReply : (o : ApiOp ℕ) → Option o.Reply
  | .getMethodName _ => some (.ok ("indexOf".toList, 0))
  | .newStringUTF _ => some (some 7)
  | .callMethod _ _ _ _ => some (.integer 2)
  | .releaseStringUTFChars _ => some ()
  | .deallocate _ => some ()
  | .exceptionCheck => some false
  | .exceptionDescribe => some ()
  | .exceptionClear => some ()
  | _ => none

theorem indexOf_agrees :
    RepliesWith indexOfReply .x86 (fun _ => 7) ⟨fun _ : ℕ => [], fun _ => false, fun _ => none, fun _ => true⟩
      indexOf 3 4 [⟨"STR".toList, .text "b".toList⟩] (.integer 2) ∧
    (ljCallMethod .x86 (callArgs indexOf 3 4 ['I'] (.ofInteger 1) [⟨"STR".toList, .text "b".toList⟩])).eval
      indexOfReply = some (.ok [.number (.ofInteger 2)]) := by
  have h : RepliesWith indexOfReply .x86 (fun _ => 7)
      ⟨fun _ : ℕ => [], fun _ => false, fun _ => none, fun _ => true⟩ indexOf 3 4
      [⟨"STR".toList, .text "b".toList⟩] (.integer 2) :=
    ⟨⟨0, rfl⟩, fun _ => rfl, fun _ _ => rfl, fun _ _ htext => (nomatch htext), fun _ => rfl, fun _ => rfl,
      ⟨false, rfl⟩, rfl, rfl⟩
  refine ⟨h, ?_⟩
  exact (callMethod_agrees h (n := .ofInteger 1) (by decide) (by decide) (by decide)).1
    [.number (.ofInteger 2)] rfl

end Results

end Native

end YellowTree
