import YellowTree.Debugger.SessionLock

/-!
# YellowTree.Debugger.SessionQueue — commands and resumes over many stops

A stop ends when its thread pops a RESUME; whatever stands behind it in the queue is left to a later stop.

* `stops_of_tidy`: if nothing is pushed behind a RESUME or outside a stop, and the stops that end in another way or
  begin inside another stop do so with nothing waiting, then every stop begins and ends with an empty queue.
* `stops_iff_tidy`: the condition is exact for the runs whose stops have all ended.
-/

namespace YellowTree

open Transition

variable {Tid : Type}

/-! ## What a stop should find and leave -/

section Stops

/-- A stop of `t` is in progress. -/
def InStop (s : Session Tid) (t : Tid) : Prop := ∃ a ∈ s.acts t, a.pc.stop = true

/-- Nothing waits in the queue of a thread without a stop. -/
def NothingLeft (s : Session Tid) : Prop := ∀ t, ¬ InStop s t → s.queue t = []

/-- A stop begins and ends with an empty queue. -/
structure StopStep (s : Session Tid) (e : Label Tid) (s' : Session Tid) : Prop where
  begins : ∀ t, e = .thread t .setThread → s.queue t = []
  ends : ∀ t a rest pc, s.acts t = a :: rest → a.pc.stop = true → s'.acts t = { a with pc := pc } :: rest →
    pc.stop = false → s'.queue t = []

/-- The queue a label pushes to. -/
def pushTarget (s : Session Tid) : Label Tid → Option Tid
  | .thread _ .g => s.debugThread
  | .thread _ (.pushOther u) => some u
  | .command .push => match s.cmd with
    | .target u _ => some u
    | _ => none
  | _ => none

/-- The operations that end a stop without a RESUME. -/
def Op.endsStop : Op Tid → Bool
  | .handlerReturns resume => resume
  | .passBy => true
  | .raise _ => true
  | _ => false

/-- An event is pushed only to a thread in a stop whose queue has no RESUME; a stop that begins inside another stop, or
ends without a RESUME, does so with nothing waiting. -/
structure Tidy (s : Session Tid) (e : Label Tid) (s' : Session Tid) : Prop where
  push : ∀ u, pushTarget s e = some u → InStop s u ∧ .resume ∉ s.queue u
  inner : ∀ t, e = .thread t .setThread → InStop s t → s.queue t = []
  other : ∀ t op a rest, e = .thread t op → op.endsStop = true → s.acts t = a :: rest → a.pc.stop = true →
    s.queue t = []

end Stops

/-! ## The invariant -/

section Invariant

/-- Nothing stands behind a RESUME. -/
def ResumeLast (q : List QueueEvent) : Prop := ∀ pre post, q = pre ++ .resume :: post → post = []

theorem resumeLast_nil : ResumeLast [] := fun pre post h => by
  have := congrArg List.length h
  simp at this

theorem ResumeLast.tail {ev : QueueEvent} {q : List QueueEvent} (h : ResumeLast (ev :: q)) : ResumeLast q :=
  fun pre post hq => h (ev :: pre) post (by rw [hq]; rfl)

theorem resumeLast_concat {q : List QueueEvent} (h : .resume ∉ q) (ev : QueueEvent) : ResumeLast (q ++ [ev]) := by
  intro pre post hq
  rcases List.eq_nil_or_concat post with rfl | ⟨post', x, rfl⟩
  · rfl
  · rw [List.concat_eq_append, ← List.cons_append, ← List.append_assoc] at hq
    refine absurd ?_ h
    rw [(List.append_inj' hq rfl).1]
    simp

variable [DecidableEq Tid]

structure QueueInv (s : Session Tid) : Prop where
  owned : Owned s
  nothing : NothingLeft s
  last : ∀ t, ResumeLast (s.queue t)

theorem queueInv_init : QueueInv (Session.init : Session Tid) :=
  ⟨owned_init, fun _ _ => rfl, fun _ => resumeLast_nil⟩

/-- How a move changes whether its callback is in a stop. -/
theorem Moves.stop {s u : Session Tid} {t : Tid} {k : Kind} {pc pc' : Pc Tid} {op : Op Tid}
    (h : Moves s t k pc op pc' u) :
    (op = .setThread ∧ pc = .locked ∧ pc'.stop = true) ∨
      (∃ v es, op = .pop ∧ pc = .events v ∧ pc' = .done ∧ s.queue v = .resume :: es) ∨
      (op.endsStop = true ∧ pc'.stop = false) ∨ pc'.stop = pc.stop := by
  cases h with
  | setThread => exact Or.inl ⟨rfl, rfl, rfl⟩
  | popResume v es hq => exact Or.inr (Or.inl ⟨v, es, rfl, rfl, rfl, hq⟩)
  | resumed => exact Or.inr (Or.inr (Or.inl ⟨rfl, rfl⟩))
  | passBy hk => exact Or.inr (Or.inr (Or.inl ⟨rfl, rfl⟩))
  | raise c pc hc => exact Or.inr (Or.inr (Or.inl ⟨rfl, rfl⟩))
  | _ => exact Or.inr (Or.inr (Or.inr rfl))

/-- The queue of `v` after a step: the same, one event longer, or one shorter. -/
theorem step_queue {s s' : Session Tid} {e : Label Tid} (h : step s e = some s') (v : Tid) :
    s'.queue v = s.queue v ∨ (∃ ev, pushTarget s e = some v ∧ s'.queue v = s.queue v ++ [ev]) ∨
      ∃ t a rest ev, e = .thread t .pop ∧ s.acts t = a :: rest ∧ a.pc = .events v ∧ s.queue v = ev :: s'.queue v := by
  have hpush : ∀ (u : Tid) (ev : QueueEvent), pushTarget s e = some u →
      (s.push u ev).queue v = s.queue v ∨ pushTarget s e = some v ∧ (s.push u ev).queue v = s.queue v ++ [ev] :=
    fun u ev hu => by
      by_cases hv : v = u
      · subst hv
        exact Or.inr ⟨hu, Function.update_self ..⟩
      · exact Or.inl (Function.update_of_ne hv ..)
  have hpop : ∀ (t : Tid) (a : Activation Tid) (rest : List (Activation Tid)) (u : Tid) (ev : QueueEvent)
      (es : List QueueEvent), e = .thread t .pop → s.acts t = a :: rest → a.pc = .events u → s.queue u = ev :: es →
      Function.update s.queue u es v = s.queue v ∨ ∃ t a rest ev, e = .thread t .pop ∧ s.acts t = a :: rest ∧
        a.pc = .events v ∧ s.queue v = ev :: Function.update s.queue u es v :=
    fun t a rest u ev es he hacts hpc hq => by
      by_cases hv : v = u
      · subst hv
        refine Or.inr ⟨t, a, rest, ev, he, hacts, hpc, ?_⟩
        rw [Function.update_self]
        exact hq
      · exact Or.inl (Function.update_of_ne hv ..)
  cases e with
  | command op =>
    rcases cmdStep_cases h with ⟨-, c, rfl⟩ | ⟨u, ev, c, rfl, hcmd, rfl⟩
    · exact Or.inl rfl
    · rcases hpush u ev (by simp [pushTarget, hcmd]) with hq | ⟨hu, hq⟩
      · exact Or.inl hq
      · exact Or.inr (Or.inl ⟨ev, hu, hq⟩)
  | thread t op =>
    rcases threadStep_cases h with ⟨k, rfl, -, rfl⟩ | ⟨a, rest, raised, rfl, -, -, rfl⟩ |
      ⟨a, rest, pc, u, hacts, hmove, rfl⟩
    · exact Or.inl rfl
    · exact Or.inl rfl
    · generalize ha : a.pc = apc at hmove
      cases hmove with
      | g pc hpc w hd =>
        rcases hpush w .resume hd with hq | ⟨hu, hq⟩
        · exact Or.inl hq
        · exact Or.inr (Or.inl ⟨_, hu, hq⟩)
      | pushOther w pc hpc =>
        rcases hpush w .other rfl with hq | ⟨hu, hq⟩
        · exact Or.inl hq
        · exact Or.inr (Or.inl ⟨_, hu, hq⟩)
      | popCommand w es hq =>
        rcases hpop t a rest w _ es rfl hacts ha hq with hq' | hq'
        · exact Or.inl hq'
        · exact Or.inr (Or.inr hq')
      | popResume w es hq =>
        rcases hpop t a rest w _ es rfl hacts ha hq with hq' | hq'
        · exact Or.inl hq'
        · exact Or.inr (Or.inr hq')
      | popOther w es hq =>
        rcases hpop t a rest w _ es rfl hacts ha hq with hq' | hq'
        · exact Or.inl hq'
        · exact Or.inr (Or.inr hq')
      | _ => exact Or.inl rfl

/-- The end of a stop: the queue of its thread is empty. -/
theorem QueueInv.empty_of_end {s s' u : Session Tid} {t : Tid} {op : Op Tid} {a : Activation Tid}
    {rest : List (Activation Tid)} {pc : Pc Tid} (hs : QueueInv s) (hC : Tidy s (.thread t op) s')
    (h : step s (.thread t op) = some s') (hacts : s.acts t = a :: rest) (hmove : Moves s t a.kind a.pc op pc u)
    (hu : s'.queue = u.queue) (ha : a.pc.stop = true) (hpc : pc.stop = false) : s'.queue t = [] := by
  rcases hmove.stop with ⟨-, -, hpc'⟩ | ⟨v, es, rfl, hv, -, hq⟩ | ⟨hop, -⟩ | hpc'
  · rw [hpc] at hpc'
    simp at hpc'
  · -- the queue handled is that of `t`, and nothing stands behind its RESUME
    have ha : a ∈ s.acts t := by rw [hacts]; exact List.mem_cons_self
    obtain rfl : v = t := hs.owned.handles t a ha v (by rw [hv]; rfl)
    have hes : es = [] := hs.last v [] es hq
    have hafter : u.queue v = es := by
      rw [hv] at hmove
      cases hmove with
      | popCommand _ es' hq' | popResume _ es' hq' | popOther _ es' hq' =>
        show Function.update s.queue v es' v = es
        rw [Function.update_self]
        exact (List.cons.inj (hq'.symm.trans hq)).2
    rw [hu, hafter, hes]
  · have hnil := hC.other t op a rest rfl hop hacts ha
    rcases step_queue h t with hq | ⟨ev, htarget, -⟩ | ⟨t', _, _, ev, he, -, -, -⟩
    · rw [hq, hnil]
    · cases op <;> first | (cases hop; done) | cases htarget
    · cases he
      cases hop
  · rw [hpc', ha] at hpc
    cases hpc

/-- A thread whose last stop ends has an empty queue. -/
theorem QueueInv.nothing_step {s s' : Session Tid} {e : Label Tid} (hs : QueueInv s) (hC : Tidy s e s')
    (h : step s e = some s') : NothingLeft s' := by
  intro t hout
  by_cases hin : InStop s t
  · obtain ⟨b, hb, hbpc⟩ := hin
    rcases step_acts h t with ⟨-, hv⟩ | ⟨k, -, -, -, hv⟩ | ⟨a, rest, raised, -, hacts, hpc, -, hv⟩ |
      ⟨op, a, rest, pc, u, rfl, hacts, hmove, rfl, hv⟩
    · exact absurd ⟨b, by rw [hv]; exact hb, hbpc⟩ hout
    · exact absurd ⟨b, by rw [hv]; exact List.mem_cons_of_mem _ hb, hbpc⟩ hout
    · rw [hacts] at hb
      rcases List.mem_cons.mp hb with rfl | hb'
      · rw [hpc] at hbpc
        cases hbpc
      · exact absurd ⟨b, by rw [hv]; exact hb', hbpc⟩ hout
    · have hpc : pc.stop = false := by
        by_contra hpc
        exact hout ⟨_, by rw [hv]; exact List.mem_cons_self, by simpa using hpc⟩
      rw [hacts] at hb
      rcases List.mem_cons.mp hb with rfl | hb'
      · exact hs.empty_of_end hC h hacts hmove rfl hbpc hpc
      · exact absurd ⟨b, by rw [hv]; exact List.mem_cons_of_mem _ hb', hbpc⟩ hout
  · have hnil := hs.nothing t hin
    rcases step_queue h t with hq | ⟨ev, htarget, -⟩ | ⟨t', _, _, ev, -, -, -, hq⟩
    · rw [hq, hnil]
    · exact absurd (hC.push t htarget).1 hin
    · rw [hnil] at hq
      simp at hq

theorem queueInv_step (s : Session Tid) (e : Label Tid) (s' : Session Tid) (hs : QueueInv s) (hC : Tidy s e s')
    (h : step s e = some s') : QueueInv s' := by
  refine ⟨owned_step s e s' hs.owned h, hs.nothing_step hC h, fun t => ?_⟩
  rcases step_queue h t with hq | ⟨ev, htarget, hq⟩ | ⟨t', _, _, ev, -, -, -, hq⟩
  · rw [hq]
    exact hs.last t
  · rw [hq]
    exact resumeLast_concat (hC.push t htarget).2 ev
  · have hlast := hs.last t
    rw [hq] at hlast
    exact hlast.tail

theorem QueueInv.stopStep {s s' : Session Tid} {e : Label Tid} (hs : QueueInv s) (hC : Tidy s e s')
    (h : step s e = some s') : StopStep s e s' := by
  constructor
  · intro t he
    by_cases hin : InStop s t
    · exact hC.inner t he hin
    · exact hs.nothing t hin
  · intro t a rest pc hacts ha hacts' hpc
    rcases step_acts h t with ⟨-, hv⟩ | ⟨k, -, -, -, hv⟩ | ⟨_, _, raised, -, hacts'', -, -, hv⟩ |
      ⟨op, b, below, pc', u, rfl, hacts'', hmove, rfl, hv⟩
    · have heq := hacts.symm.trans (hv.symm.trans hacts')
      rw [(List.cons.inj heq).1] at ha
      exact absurd ha (by simp [hpc])
    · have hlen := congrArg List.length (hv.symm.trans hacts')
      rw [hacts] at hlen
      simp at hlen
    · obtain ⟨-, rfl⟩ := List.cons.inj (hacts.symm.trans hacts'')
      have hlen := congrArg List.length (hv.symm.trans hacts')
      simp at hlen
    · obtain ⟨rfl, rfl⟩ := List.cons.inj (hacts.symm.trans hacts'')
      have hpc' : pc' = pc := congrArg Activation.pc (List.cons.inj (hv.symm.trans hacts')).1
      rw [← hpc'] at hpc
      exact hs.empty_of_end hC h hacts hmove rfl ha hpc

theorem QueueInv.stops {s : Session Tid} (hs : QueueInv s) {es : List (Label Tid)} (h : EachStep step Tidy s es) :
    EachStep step StopStep s es ∧ Always step NothingLeft s es :=
  ⟨eachStep_of_inv queueInv_step (fun _ _ _ hs hC h => hs.stopStep hC h) es s hs h,
    always_of_inv queueInv_step (fun _ hs => hs.nothing) es s hs h⟩

/-- **Commands and resumes stay with their stop** in every run whose steps are all tidy: a stop begins and ends with an
empty queue, and nothing waits for a thread without a stop. -/
theorem stops_of_tidy (es : List (Label Tid)) (h : EachStep step Tidy (Session.init : Session Tid) es) :
    EachStep step StopStep Session.init es ∧ Always step NothingLeft Session.init es :=
  queueInv_init.stops h

end Invariant

/-! ## Runs whose stops have all ended -/

section Ended

theorem ResumeLast.of_concat {q : List QueueEvent} {ev : QueueEvent} (h : ResumeLast (q ++ [ev])) :
    .resume ∉ q := by
  intro hmem
  obtain ⟨pre, post, hq⟩ := List.append_of_mem hmem
  have hnil : post ++ [ev] = [] := h pre (post ++ [ev]) (by rw [hq]; simp)
  simp at hnil

theorem resumeLast_of_notMem {q : List QueueEvent} (h : .resume ∉ q) : ResumeLast q := by
  intro pre post hq
  exact absurd (by rw [hq]; simp) h

theorem ResumeLast.cons {q : List QueueEvent} {ev : QueueEvent} (h : ResumeLast q) (hev : ev = .resume → q = []) :
    ResumeLast (ev :: q) := by
  intro pre post hq
  cases pre with
  | nil =>
    obtain ⟨rfl, rfl⟩ := List.cons.inj hq
    exact hev rfl
  | cons x pre => exact h pre post (List.cons.inj hq).2

variable [DecidableEq Tid]

/-- A push makes the queue longer and ends or begins no stop. -/
theorem step_push {s s' : Session Tid} {e : Label Tid} (h : step s e = some s') {u : Tid}
    (hpush : pushTarget s e = some u) :
    (∃ ev, s'.queue u = s.queue u ++ [ev]) ∧ ∀ t, InStop s' t ↔ InStop s t := by
  cases e with
  | command op =>
    rcases cmdStep_cases h with ⟨hop, c, rfl⟩ | ⟨v, ev, c, rfl, hcmd, rfl⟩
    · cases op <;> first | exact absurd rfl hop | cases hpush
    · simp only [pushTarget, hcmd, Option.some.injEq] at hpush
      subst hpush
      exact ⟨⟨ev, Function.update_self ..⟩, fun t => Iff.rfl⟩
  | thread t op =>
    rcases threadStep_cases h with ⟨k, rfl, -, rfl⟩ | ⟨a, rest, raised, rfl, -, -, rfl⟩ |
      ⟨a, rest, pc, v, hacts, hmove, rfl⟩
    · cases hpush
    · cases hpush
    · have hacts' : ∀ w, Function.update s.acts t (a :: rest) w = s.acts w := by
        intro w
        by_cases hw : w = t
        · rw [hw, Function.update_self, hacts]
        · exact Function.update_of_ne hw ..
      generalize ha : a.pc = apc at hmove
      cases hmove with
      | g pc hpc w hd =>
        obtain rfl : w = u := Option.some.inj (hd.symm.trans hpush)
        subst ha
        exact ⟨⟨.resume, Function.update_self ..⟩, fun x => by unfold InStop; rw [← hacts' x]⟩
      | gNone pc hpc hd => cases hd.symm.trans hpush
      | pushOther w pc hpc =>
        obtain rfl : w = u := Option.some.inj hpush
        subst ha
        exact ⟨⟨.other, Function.update_self ..⟩, fun x => by unfold InStop; rw [← hacts' x]⟩
      | _ => cases hpush

/-- What stands behind a RESUME stays there while stops end with an empty queue. -/
theorem not_resumeLast_step {s s' : Session Tid} {e : Label Tid} {t : Tid} (hs : Owned s) (h : step s e = some s')
    (hstop : StopStep s e s') (hlast : ¬ ResumeLast (s.queue t)) : ¬ ResumeLast (s'.queue t) := by
  intro hlast'
  apply hlast
  rcases step_queue h t with hq | ⟨ev, -, hq⟩ | ⟨t', a, rest, ev, rfl, hacts, hpc, hq⟩
  · rw [← hq]
    exact hlast'
  · rw [hq] at hlast'
    exact resumeLast_of_notMem hlast'.of_concat
  · rw [hq]
    refine hlast'.cons ?_
    rintro rfl
    have ha : a ∈ s.acts t' := by rw [hacts]; exact List.mem_cons_self
    obtain rfl : t = t' := hs.handles t' a ha t (by rw [hpc]; rfl)
    obtain ⟨pc, u, hmove, rfl, hv⟩ := step_move h (by simp) (by simp) hacts
    rw [hpc] at hmove
    have hpc' : pc = .done := by
      cases hmove with
      | popResume _ es hq' => rfl
      | popCommand _ es hq' | popOther _ es hq' => cases hq.symm.trans hq'
    exact hstop.ends t a rest pc hacts (by rw [hpc]; rfl) hv (by rw [hpc']; rfl)

theorem not_resumeLast_run {s' : Session Tid} {t : Tid} : ∀ (es : List (Label Tid)) (s : Session Tid), Owned s →
    run step s es = some s' → EachStep step StopStep s es → ¬ ResumeLast (s.queue t) → ¬ ResumeLast (s'.queue t)
  | [], s, _, hrun, _, hlast => by
    obtain rfl : s = s' := by simpa using hrun
    exact hlast
  | e :: es, s, hs, hrun, hstops, hlast => by
    rw [run_cons, Option.bind_eq_some_iff] at hrun
    obtain ⟨u, hu, hrun⟩ := hrun
    obtain ⟨hstop, hstops'⟩ := hstops u hu
    exact not_resumeLast_run es u (owned_step s e u hs hu) hrun hstops' (not_resumeLast_step hs hu hstop hlast)

/-- A step that is not tidy leaves something behind a RESUME, or does what no stop should. -/
theorem tidy_of_stopStep {s s' : Session Tid} {e : Label Tid} (h : step s e = some s') (hstop : StopStep s e s')
    (hleft : NothingLeft s') (hlast : ∀ t, ResumeLast (s'.queue t)) : Tidy s e s' := by
  refine ⟨?_, fun t he _ => hstop.begins t he, ?_⟩
  · intro u hpush
    obtain ⟨⟨ev, hq⟩, hin⟩ := step_push h hpush
    constructor
    · by_contra hout
      have hnil := hleft u (by rw [hin]; exact hout)
      rw [hq] at hnil
      simp at hnil
    · have hlast' := hlast u
      rw [hq] at hlast'
      exact hlast'.of_concat
  · intro t op a rest he hop hacts ha
    subst he
    have henter : ∀ k, op ≠ .enter k := by
      rintro k rfl
      cases hop
    have hleave : op ≠ .leave := by
      rintro rfl
      cases hop
    obtain ⟨pc, u, hmove, rfl, hv⟩ := step_move h henter hleave hacts
    have hend : pc.stop = false ∧ u.queue = s.queue := by
      generalize a.pc = apc at hmove
      cases hmove with
      | raise c apc hc => exact ⟨rfl, rfl⟩
      | resumed => exact ⟨rfl, rfl⟩
      | passBy hk => exact ⟨rfl, rfl⟩
      | _ => cases hop
    rw [← hend.2]
    exact hstop.ends t a rest pc hacts ha hv hend.1

/-- The condition is exact for runs after which no stop is in progress. -/
theorem tidy_of_stops {s' : Session Tid} (hout : ∀ t, ¬ InStop s' t) : ∀ (es : List (Label Tid)) (s : Session Tid),
    Owned s → run step s es = some s' → EachStep step StopStep s es → Always step NothingLeft s es →
    EachStep step Tidy s es
  | [], _, _, _, _, _ => trivial
  | e :: es, s, hs, hrun, hstops, hleft => by
    intro u hu
    rw [run_cons, hu] at hrun
    obtain ⟨hstop, hstops'⟩ := hstops u hu
    have hleft' := hleft.2 u hu
    have howned := owned_step s e u hs hu
    refine ⟨tidy_of_stopStep hu hstop hleft'.head fun t => ?_, tidy_of_stops hout es u howned hrun hstops' hleft'⟩
    by_contra hlast
    -- it is still there at the end, where nothing is left
    refine not_resumeLast_run es u howned hrun hstops' hlast ?_
    rw [always_iff.mp hleft' es List.prefix_rfl s' hrun t (hout t)]
    exact resumeLast_nil

/-- In a run after which no stop is in progress, stops begin and end with an empty queue exactly when every step is
tidy. -/
theorem stops_iff_tidy {es : List (Label Tid)} {s' : Session Tid} (hrun : run step Session.init es = some s')
    (hout : ∀ t, ¬ InStop s' t) :
    EachStep step StopStep Session.init es ∧ Always step NothingLeft Session.init es ↔
      EachStep step Tidy Session.init es :=
  ⟨fun h => tidy_of_stops hout es Session.init owned_init hrun h.1 h.2, queueInv_init.stops⟩

end Ended

/-! ## Resumed once and twice -/

section Runs

variable [DecidableEq Tid]

omit [DecidableEq Tid] in
/-- A step that pushes nothing, begins no stop and ends none without a RESUME. -/
theorem tidy_of_quiet {s s' : Session Tid} {e : Label Tid} (hpush : pushTarget s e = none)
    (h : ∀ t op, e = .thread t op → op ≠ .setThread ∧ op.endsStop = false) : Tidy s e s' := by
  refine ⟨?_, ?_, ?_⟩
  · intro u hu
    rw [hpush] at hu
    simp at hu
  · intro t he
    exact absurd rfl (h t _ he).1
  · intro t op a rest he hop
    rw [(h t op he).2] at hop
    simp at hop

omit [DecidableEq Tid] in
/-- A stop that begins with an empty queue. -/
theorem tidy_of_begin {s s' : Session Tid} {t : Tid} (h : s.queue t = []) : Tidy s (.thread t .setThread) s' := by
  refine ⟨?_, ?_, ?_⟩
  · intro u hu
    cases hu
  · intro v he _
    cases he
    exact h
  · intro v op a rest he hop
    cases he
    cases hop

omit [DecidableEq Tid] in
/-- A step that pushes to a thread in a stop. -/
theorem tidy_of_push {s s' : Session Tid} {e : Label Tid} {u : Tid} (hpush : pushTarget s e = some u)
    (hin : InStop s u) (hq : .resume ∉ s.queue u) : Tidy s e s' := by
  refine ⟨?_, ?_, ?_⟩
  · intro v hv
    obtain rfl := Option.some.inj (hpush.symm.trans hv)
    exact ⟨hin, hq⟩
  · intro t he
    rw [he] at hpush
    cases hpush
  · intro t op a rest he hop
    rw [he] at hpush
    cases op <;> first | (cases hop; done) | cases hpush

/-- One command that calls `g` ends one stop. -/
theorem one_stop_stops : EachStep step StopStep (Session.init : Session Bool)
      (stopLabels true ++ typeCommand ++ runG true ++ endStop true) ∧
    Always step NothingLeft (Session.init : Session Bool)
      (stopLabels true ++ typeCommand ++ runG true ++ endStop true) := by
  refine stops_of_tidy _ ?_
  have quiet {s s' : Session Bool} {u : Bool} {op : Op Bool} {es : List (Label Bool)}
      (h : step s (.thread u op) = some s') (hpush : pushTarget s (.thread u op) = none)
      (hop : op ≠ .setThread ∧ op.endsStop = false) (hes : EachStep step Tidy s' es) :
      EachStep step Tidy s (.thread u op :: es) := by
    refine eachStep_cons h (tidy_of_quiet hpush ?_) hes
    rintro _ _ ⟨⟩
    exact hop
  have quiet' {s s' : Session Bool} {op : CmdOp Bool} {es : List (Label Bool)}
      (h : step s (.command op) = some s') (hpush : pushTarget s (.command op) = none)
      (hes : EachStep step Tidy s' es) : EachStep step Tidy s (.command op :: es) :=
    eachStep_cons h (tidy_of_quiet hpush (by simp)) hes
  -- enter, setCurrent, disableEvents and lock; setThread; wait and handleEvents
  refine quiet rfl rfl (by decide) (quiet rfl rfl (by decide) ?_)
  refine quiet rfl rfl (by decide) (quiet rfl rfl (by decide) ?_)
  refine eachStep_cons rfl (tidy_of_begin rfl) ?_
  refine quiet rfl rfl (by decide) (quiet rfl rfl (by decide) ?_)
  -- the command is typed
  refine quiet' rfl rfl (quiet' rfl rfl (eachStep_cons rfl (tidy_of_push rfl ⟨_, List.mem_cons_self, rfl⟩ ?_) ?_))
  · decide
  -- it runs, calls `g` and is reported
  refine quiet rfl rfl (by decide) (eachStep_cons rfl (tidy_of_push rfl ⟨_, List.mem_cons_self, rfl⟩ ?_) ?_)
  · decide
  refine quiet rfl rfl (by decide) (quiet rfl rfl (by decide) ?_)
  -- the stop ends
  refine quiet rfl rfl (by decide) (quiet rfl rfl (by decide) ?_)
  exact quiet rfl rfl (by decide) (quiet rfl rfl (by decide) (quiet rfl rfl (by decide) trivial))

/-- `g()` typed twice: the second command runs before the RESUME of the first is popped, and the RESUME it pushes
waits for the next stop. -/
theorem two_resumes_not_stops : ¬ (EachStep step StopStep (Session.init : Session Bool)
      (stopLabels true ++ typeCommand ++ typeCommand ++ runG true ++ runG true ++ endStop true) ∧
    Always step NothingLeft (Session.init : Session Bool)
      (stopLabels true ++ typeCommand ++ typeCommand ++ runG true ++ runG true ++ endStop true)) := by
  rintro ⟨-, h⟩
  have hrun : run step (Session.init : Session Bool)
      (stopLabels true ++ typeCommand ++ typeCommand ++ runG true ++ runG true ++ endStop true) = some _ := rfl
  refine not_always_of_run hrun (fun hleft => ?_) h
  exact absurd (hleft true (by unfold InStop; decide)) (by decide)

end Runs

end YellowTree
