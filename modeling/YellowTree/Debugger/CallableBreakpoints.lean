import YellowTree.Bridge.MemberSearch
import YellowTree.Debugger.Breakpoints

/-!
# YellowTree.Debugger.CallableBreakpoints — `bp` on a callable method

`bp(c, line)` calls itself for each of the possible methods of a callable and drops the line: every method gets its
breakpoint at the location for line 0.  A method that is equal to an earlier one, or to that of an entry, with the same
location is skipped, and an error ends the loop with the breakpoints made so far.

* `bpCallable_spec`: the loop sets the breakpoints of `newMethods`, up to the first that cannot be set.
* `coversOrNothing_iff`: when all methods with code get a breakpoint for the line, or nothing changes.
-/

namespace YellowTree

variable {Class Method Field Ref Handler : Type}

/-! ## What is promised -/

section Promise

variable (jvm : Jvm Class Method) (hasCode : Method → Bool) (s : BpState Class Method Handler)
  (ms : List (JmethodId Class Method)) (line : LuaNumber)

/-- `method_location_for_line_num`, as `bp` uses it: 0 where there is no line number table. -/
def lineLocation (m : JmethodId Class Method) (lineNum : LuaNumber) : Except LuaError ℕ :=
  (methodLocationForLineNum (m.info jvm) lineNum).map Int.toNat

/-- Every method with code has a breakpoint at its location for the line; or there is an error, and nothing changed. -/
def AllOrNothing : BpState Class Method Handler × Option LuaError → Prop
  | (s', none) => ∀ m ∈ ms, hasCode m.methodIdRaw = true →
      ∃ l, lineLocation jvm m line = .ok l ∧ (m.methodIdRaw, l) ∈ s'.jvmti
  | (s', some _) => s' = s

/-- `bp(c, line)` for the callable method `c = v[key]`. -/
def CoversOrNothing [DecidableEq Method] (h : Hierarchy Class Method Field Ref)
    (rawKey : BridgeValue Class Ref → LuaString → Bool) (valid : Method → ℕ → Bool) (v : BridgeValue Class Ref)
    (key : LuaString) : Prop :=
  match index h rawKey v key with
  | .callable _ _ ms =>
    AllOrNothing h.jvm hasCode s ms line (bp h.jvm valid s (.callable ms) (some (.number line)))
  | _ => True

end Promise

/-! ## The loop -/

section Loop

variable (jvm : Jvm Class Method)

/-- What `bp` compares: what `jmethod_id.__eq` does, and the location. -/
def entryKeys (s : BpState Class Method Handler) : List ((LuaString × LuaString × LuaString) × ℕ) :=
  s.breakpoints.map fun b => (b.methodId.key jvm, b.location)

/-- The methods that are not skipped: no entry and no method before is equal, with the same location. -/
def newMethods : List ((LuaString × LuaString × LuaString) × ℕ) → List (JmethodId Class Method) →
    List (JmethodId Class Method)
  | _, [] => []
  | seen, m :: ms =>
    match lineLocation jvm m 0 with
    | .error _ => m :: newMethods seen ms
    | .ok l => if (m.key jvm, l) ∈ seen then newMethods seen ms else m :: newMethods (seen ++ [(m.key jvm, l)]) ms

/-- The breakpoint of a method can be set. -/
def Settable (valid : Method → ℕ → Bool) (s : BpState Class Method Handler) (m : JmethodId Class Method) : Prop :=
  ∃ l, lineLocation jvm m 0 = .ok l ∧ valid m.methodIdRaw l = true ∧ (m.methodIdRaw, l) ∉ s.jvmti

/-- The state with the breakpoint of a method. -/
def addBreakpoint (s : BpState Class Method Handler) (m : JmethodId Class Method) (l : ℕ) :
    BpState Class Method Handler :=
  ⟨s.breakpoints ++ [⟨0, m, l, none⟩], (m.methodIdRaw, l) :: s.jvmti⟩

/-- The state with the breakpoints of the methods. -/
def addBreakpoints (s : BpState Class Method Handler) (ms : List (JmethodId Class Method)) :
    BpState Class Method Handler :=
  ms.foldl (fun s m => addBreakpoint s m ((lineLocation jvm m 0).toOption.getD 0)) s

variable {jvm} {valid : Method → ℕ → Bool} {s : BpState Class Method Handler}
  {ms : List (JmethodId Class Method)} {m : JmethodId Class Method}
  {seen : List ((LuaString × LuaString × LuaString) × ℕ)}

@[simp] theorem entryKeys_addBreakpoint (l : ℕ) :
    entryKeys jvm (addBreakpoint s m l) = entryKeys jvm s ++ [(m.key jvm, l)] := by
  unfold entryKeys addBreakpoint
  rw [List.map_append]
  rfl

theorem addBreakpoints_cons {l : ℕ} (hl : lineLocation jvm m 0 = .ok l) :
    addBreakpoints jvm s (m :: ms) = addBreakpoints jvm (addBreakpoint s m l) ms := by
  unfold addBreakpoints
  rw [List.foldl_cons, hl]
  rfl

theorem mem_addBreakpoints {p : Method × ℕ} : ∀ {ms : List (JmethodId Class Method)}
    {s : BpState Class Method Handler}, (∀ m ∈ ms, ∃ l, lineLocation jvm m 0 = .ok l) →
    (p ∈ (addBreakpoints jvm s ms).jvmti ↔
      p ∈ s.jvmti ∨ ∃ m ∈ ms, m.methodIdRaw = p.1 ∧ lineLocation jvm m 0 = .ok p.2)
  | [], s, _ => by
    show p ∈ s.jvmti ↔ _
    simp
  | m :: ms, s, hall => by
    obtain ⟨⟨l, hl⟩, hrest⟩ := List.forall_mem_cons.mp hall
    rw [addBreakpoints_cons hl, mem_addBreakpoints hrest]
    have hadd : p ∈ (addBreakpoint s m l).jvmti ↔ p = (m.methodIdRaw, l) ∨ p ∈ s.jvmti := List.mem_cons
    have hpair : p = (m.methodIdRaw, l) ↔ m.methodIdRaw = p.1 ∧ lineLocation jvm m 0 = .ok p.2 := by
      rw [hl, Prod.ext_iff]
      constructor
      · rintro ⟨h1, h2⟩
        exact ⟨h1.symm, congrArg Except.ok h2.symm⟩
      · rintro ⟨h1, h2⟩
        exact ⟨h1.symm, (Except.ok.inj h2).symm⟩
    rw [hadd, hpair, List.exists_mem_cons_iff]
    tauto

theorem length_addBreakpoints (jvm : Jvm Class Method) : ∀ (ms : List (JmethodId Class Method))
    (s : BpState Class Method Handler), (addBreakpoints jvm s ms).breakpoints.length = s.breakpoints.length + ms.length
  | [], s => rfl
  | m :: ms, s => by
    have htail := length_addBreakpoints jvm ms (addBreakpoint s m ((lineLocation jvm m 0).toOption.getD 0))
    have hone : (addBreakpoint s m ((lineLocation jvm m 0).toOption.getD 0)).breakpoints.length =
        s.breakpoints.length + 1 := by
      unfold addBreakpoint
      rw [List.length_append]
      rfl
    rw [hone] at htail
    rw [List.length_cons]
    show (addBreakpoints jvm (addBreakpoint s m _) ms).breakpoints.length = _
    omega

/-- A new method differs from everything seen before it. -/
theorem not_mem_seen {l : ℕ} : ∀ {ms : List (JmethodId Class Method)}
    {seen : List ((LuaString × LuaString × LuaString) × ℕ)}, m ∈ newMethods jvm seen ms →
    lineLocation jvm m 0 = .ok l → (m.key jvm, l) ∉ seen
  | [], seen, hm, _ => by
    unfold newMethods at hm
    simp at hm
  | m' :: ms, seen, hm, hl => by
    unfold newMethods at hm
    split at hm
    case h_1 e herror =>
      rcases List.mem_cons.mp hm with rfl | hm
      · rw [hl] at herror
        cases herror
      · exact not_mem_seen hm hl
    case h_2 l' hl' =>
      split_ifs at hm with hseen
      · exact not_mem_seen hm hl
      · rcases List.mem_cons.mp hm with rfl | hm
        · rw [hl] at hl'
          obtain rfl := Except.ok.inj hl'
          exact hseen
        · exact fun hmem => not_mem_seen hm hl (List.mem_append_left _ hmem)

theorem newMethods_subset : ∀ {ms : List (JmethodId Class Method)}
    {seen : List ((LuaString × LuaString × LuaString) × ℕ)}, m ∈ newMethods jvm seen ms → m ∈ ms
  | [], seen, hm => by
    unfold newMethods at hm
    exact hm
  | m' :: ms, seen, hm => by
    unfold newMethods at hm
    split at hm
    · rcases List.mem_cons.mp hm with rfl | hm
      · exact List.mem_cons_self
      · exact List.mem_cons_of_mem _ (newMethods_subset hm)
    · split_ifs at hm
      · exact List.mem_cons_of_mem _ (newMethods_subset hm)
      · rcases List.mem_cons.mp hm with rfl | hm
        · exact List.mem_cons_self
        · exact List.mem_cons_of_mem _ (newMethods_subset hm)

/-- A breakpoint that was set does not keep the other new methods of the class from being set. -/
theorem settable_addBreakpoint {c : Class} {l : ℕ} (hm : m.cls = c) (hms : ∀ m' ∈ ms, m'.cls = c)
    {m' : JmethodId Class Method} (hnew : m' ∈ newMethods jvm (entryKeys jvm (addBreakpoint s m l)) ms) :
    Settable jvm valid (addBreakpoint s m l) m' ↔ Settable jvm valid s m' := by
  unfold Settable
  refine exists_congr fun l' => and_congr_right fun hl' => and_congr_right fun _ => ?_
  have hmem : (m'.methodIdRaw, l') ∈ (addBreakpoint s m l).jvmti ↔
      (m'.methodIdRaw, l') = (m.methodIdRaw, l) ∨ (m'.methodIdRaw, l') ∈ s.jvmti := List.mem_cons
  rw [hmem, not_or]
  refine and_iff_right fun hpair => ?_
  obtain ⟨hraw, rfl⟩ := Prod.mk.inj hpair
  -- the same raw method and class have the same key
  have hid : m' = m := by
    cases m
    cases m'
    obtain rfl := hraw
    obtain rfl := hm
    exact congrArg _ (hms _ (newMethods_subset hnew))
  subst hid
  refine not_mem_seen hnew hl' ?_
  rw [entryKeys_addBreakpoint]
  simp

variable [DecidableEq Method]

/-- `bp` on one method, without a line. -/
theorem bpMethodId_none : bpMethodId jvm valid s m none =
    match lineLocation jvm m 0 with
    | .error e => .error e
    | .ok l =>
      if (m.key jvm, l) ∈ entryKeys jvm s then .ok s
      else
        match ljSetBreakpoint valid s.jvmti m.methodIdRaw l with
        | .error e => .error e
        | .ok set => .ok ⟨s.breakpoints ++ [⟨0, m, l, none⟩], set⟩ := by
  have hline : methodLocationForLine (m.info jvm) ((none : Option LineNum).getD 0) =
      methodLocationForLineNum (m.info jvm) 0 := rfl
  simp only [bpMethodId, lineLocation, hline]
  cases methodLocationForLineNum (m.info jvm) 0 with
  | error e => rfl
  | ok l =>
    have hany : s.breakpoints.any (fun b => b.methodId.eq jvm m && b.location == l.toNat) = true ↔
        (m.key jvm, l.toNat) ∈ entryKeys jvm s := by
      unfold entryKeys
      rw [List.any_eq_true, List.mem_map]
      refine exists_congr fun b => and_congr_right fun _ => ?_
      rw [Bool.and_eq_true, beq_iff_eq, JmethodId.eq_iff]
      exact Prod.mk_inj.symm
    exact if_congr hany rfl rfl

/-- The loop sets the breakpoints of the new methods, up to the first that cannot be set. -/
theorem bpCallable_spec (valid : Method → ℕ → Bool) {c : Class} : ∀ (ms : List (JmethodId Class Method))
    (s : BpState Class Method Handler), (∀ m ∈ ms, m.cls = c) →
    (∃ pre m post e, newMethods jvm (entryKeys jvm s) ms = pre ++ m :: post ∧
      (∀ m' ∈ pre, Settable jvm valid s m') ∧ ¬ Settable jvm valid s m ∧
        bpCallable jvm valid s ms = (addBreakpoints jvm s pre, some e)) ∨
    ((∀ m ∈ newMethods jvm (entryKeys jvm s) ms, Settable jvm valid s m) ∧
      bpCallable jvm valid s ms = (addBreakpoints jvm s (newMethods jvm (entryKeys jvm s) ms), none))
  | [], s, _ => Or.inr ⟨fun m hm => by simp [newMethods] at hm, rfl⟩
  | m :: ms, s, hcls => by
    obtain ⟨hm, hms⟩ := List.forall_mem_cons.mp hcls
    unfold bpCallable
    rw [bpMethodId_none]
    cases hl : lineLocation jvm m 0 with
    | error e =>
      have hnew : newMethods jvm (entryKeys jvm s) (m :: ms) = m :: newMethods jvm (entryKeys jvm s) ms := by
        rw [newMethods, hl]
      refine Or.inl ⟨[], m, _, e, hnew, fun m' hm' => by simp at hm', ?_, rfl⟩
      rintro ⟨l, hl', -⟩
      rw [hl] at hl'
      cases hl'
    | ok l =>
      dsimp only
      by_cases hseen : (m.key jvm, l) ∈ entryKeys jvm s
      · -- the breakpoint already exists
        have hnew : newMethods jvm (entryKeys jvm s) (m :: ms) = newMethods jvm (entryKeys jvm s) ms := by
          rw [newMethods, hl]
          exact if_pos hseen
        rw [if_pos hseen, hnew]
        exact bpCallable_spec valid ms s hms
      · have hnew : newMethods jvm (entryKeys jvm s) (m :: ms) =
            m :: newMethods jvm (entryKeys jvm (addBreakpoint s m l)) ms := by
          rw [newMethods, hl, entryKeys_addBreakpoint]
          exact if_neg hseen
        rw [if_neg hseen, hnew]
        by_cases hset : valid m.methodIdRaw l = true ∧ (m.methodIdRaw, l) ∉ s.jvmti
        · have hok : ljSetBreakpoint valid s.jvmti m.methodIdRaw l = .ok ((m.methodIdRaw, l) :: s.jvmti) := by
            unfold ljSetBreakpoint
            rw [if_neg (by rw [hset.1]; decide), if_neg hset.2]
          rw [hok]
          have hsettable : Settable jvm valid s m := ⟨l, hl, hset.1, hset.2⟩
          have hiff : ∀ m' ∈ newMethods jvm (entryKeys jvm (addBreakpoint s m l)) ms,
              Settable jvm valid (addBreakpoint s m l) m' → Settable jvm valid s m' := fun m' hm' =>
            (settable_addBreakpoint hm hms hm').mp
          rcases bpCallable_spec valid ms (addBreakpoint s m l) hms with ⟨pre, m', post, e, hsplit, hpre, hnot, hend⟩ |
            ⟨hall, hend⟩
          · refine Or.inl ⟨m :: pre, m', post, e, by rw [hsplit]; rfl, ?_, ?_, ?_⟩
            · exact List.forall_mem_cons.mpr ⟨hsettable, fun b hb => hiff b (by rw [hsplit]; simp [hb]) (hpre b hb)⟩
            · exact fun hyes => hnot ((settable_addBreakpoint hm hms (by rw [hsplit]; simp)).mpr hyes)
            · rw [addBreakpoints_cons hl]
              exact hend
          · refine Or.inr ⟨List.forall_mem_cons.mpr ⟨hsettable, fun b hb => hiff b hb (hall b hb)⟩, ?_⟩
            rw [addBreakpoints_cons hl]
            exact hend
        · have herror : ∃ e, ljSetBreakpoint valid s.jvmti m.methodIdRaw l = .error e := by
            unfold ljSetBreakpoint
            by_cases hvalid : valid m.methodIdRaw l = true
            · have hmem : (m.methodIdRaw, l) ∈ s.jvmti := by
                by_contra hmem
                exact hset ⟨hvalid, hmem⟩
              exact ⟨_, by rw [if_neg (by rw [hvalid]; decide), if_pos hmem]⟩
            · exact ⟨_, if_pos (by simpa using hvalid)⟩
          obtain ⟨e, he⟩ := herror
          rw [he]
          refine Or.inl ⟨[], m, _, e, rfl, fun m' hm' => by simp at hm', ?_, rfl⟩
          rintro ⟨l', hl', hboth⟩
          rw [hl] at hl'
          obtain rfl := Except.ok.inj hl'
          exact hset hboth

end Loop

/-! ## All methods, or nothing -/

section AllOrNothing

variable [DecidableEq Method] (jvm : Jvm Class Method) (valid : Method → ℕ → Bool) (hasCode : Method → Bool)
  (s : BpState Class Method Handler) (ms : List (JmethodId Class Method)) (line : LuaNumber)

/-- The first new method cannot be set.  Or all of them can, and at the location of the line in each method with code
there is a breakpoint already, or it is the location for line 0 in a new one. -/
def CoverCondition : Prop :=
  (∃ m rest, newMethods jvm (entryKeys jvm s) ms = m :: rest ∧ ¬ Settable jvm valid s m) ∨
  ((∀ m ∈ newMethods jvm (entryKeys jvm s) ms, Settable jvm valid s m) ∧
    ∀ m ∈ ms, hasCode m.methodIdRaw = true → ∃ l, lineLocation jvm m line = .ok l ∧
      ((m.methodIdRaw, l) ∈ s.jvmti ∨ ∃ m' ∈ newMethods jvm (entryKeys jvm s) ms,
        m'.methodIdRaw = m.methodIdRaw ∧ lineLocation jvm m' 0 = .ok l))

variable {jvm valid hasCode s ms line}

theorem allOrNothing_iff {c : Class} (hcls : ∀ m ∈ ms, m.cls = c) :
    AllOrNothing jvm hasCode s ms line (bpCallable jvm valid s ms) ↔
      CoverCondition jvm valid hasCode s ms line := by
  unfold CoverCondition
  rcases bpCallable_spec valid ms s hcls with ⟨pre, m, post, e, hsplit, hpre, hnot, hend⟩ | ⟨hall, hend⟩
  · rw [hend]
    show addBreakpoints jvm s pre = s ↔ _
    cases pre with
    | nil => exact iff_of_true rfl (Or.inl ⟨m, post, hsplit, hnot⟩)
    | cons b pre =>
      refine iff_of_false (fun heq => ?_) ?_
      · have hlen := length_addBreakpoints jvm (b :: pre) s
        rw [heq, List.length_cons] at hlen
        omega
      · rintro (⟨m', rest, hfirst, hnot'⟩ | ⟨hall, -⟩)
        · rw [hsplit] at hfirst
          obtain ⟨rfl, -⟩ := List.cons.inj hfirst
          exact hnot' (hpre b List.mem_cons_self)
        · exact hnot (hall m (by rw [hsplit]; simp))
  · rw [hend]
    have hfirst : ¬ ∃ m rest, newMethods jvm (entryKeys jvm s) ms = m :: rest ∧ ¬ Settable jvm valid s m := by
      rintro ⟨m, rest, hfirst, hnot⟩
      exact hnot (hall m (by rw [hfirst]; exact List.mem_cons_self))
    rw [or_iff_right hfirst, and_iff_right hall]
    have hloc : ∀ m ∈ newMethods jvm (entryKeys jvm s) ms, ∃ l, lineLocation jvm m 0 = .ok l := by
      intro m hm
      obtain ⟨l, hl, -⟩ := hall m hm
      exact ⟨l, hl⟩
    refine forall_congr' fun m => forall_congr' fun _ => forall_congr' fun _ => exists_congr fun l =>
      and_congr_right fun _ => ?_
    exact mem_addBreakpoints hloc

/-- **A breakpoint on a callable covers all its methods**, or nothing changes, exactly under `CoverCondition`. -/
theorem coversOrNothing_iff (h : Hierarchy Class Method Field Ref) (rawKey : BridgeValue Class Ref → LuaString → Bool)
    (valid : Method → ℕ → Bool) (hasCode : Method → Bool) (s : BpState Class Method Handler)
    (v : BridgeValue Class Ref) (key : LuaString) (line : LuaNumber) :
    CoversOrNothing hasCode s line h rawKey valid v key ↔
      match index h rawKey v key with
      | .callable _ _ ms => CoverCondition h.jvm valid hasCode s ms line
      | _ => True := by
  have hfound : FoundOn h v key (index h rawKey v key) := foundOn_index rawKey v
  unfold CoversOrNothing
  cases hindex : index h rawKey v key with
  | callable searched object ms =>
    rw [hindex] at hfound
    obtain ⟨-, rfl, -⟩ := hfound
    exact allOrNothing_iff fun m hm => (mem_findMethods.mp hm).1
  | _ => exact Iff.rfl

/-- The breakpoint for line 11 of `toString` is set at location 0, that of line 10. -/
theorem toString_not_covered : ¬ CoversOrNothing (fun _ => true) (BpState.init : BpState _ _ Unit) 11
    bookClasses.toHierarchy (fun _ _ => false) (fun _ _ => true) (.jobject none) "toString".toList := by
  have hindex : index bookClasses.toHierarchy (fun _ _ => false) (.jobject none) "toString".toList =
      .callable .book ⟨none, .book⟩ [⟨.bookToString, .book⟩, ⟨.objectToString, .book⟩] := rfl
  unfold CoversOrNothing
  rw [hindex]
  intro hcovers
  have hbp : bp bookClasses.jvm (fun _ _ => true) (BpState.init : BpState _ _ Unit)
      (.callable [⟨.bookToString, .book⟩, ⟨.objectToString, .book⟩]) (some (.number 11)) =
        (⟨[⟨0, ⟨.bookToString, .book⟩, 0, none⟩], [(.bookToString, 0)]⟩, none) := rfl
  dsimp only at hcovers
  rw [hbp] at hcovers
  obtain ⟨l, hl, hmem⟩ := hcovers ⟨.bookToString, .book⟩ List.mem_cons_self rfl
  have hfive : lineLocation bookClasses.jvm ⟨.bookToString, .book⟩ 11 = .ok 5 := by decide
  rw [hfive] at hl
  obtain rfl := Except.ok.inj hl
  exact absurd hmem (by decide)

end AllOrNothing

end YellowTree
