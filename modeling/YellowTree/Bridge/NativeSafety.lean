import YellowTree.Bridge.NativeFunctions

/-!
# YellowTree.Bridge.NativeSafety — exceptions and memory in the C functions

JNI must not be called while an exception is pending, and what JVMTI allocates the caller gives back, once.  `Tidy` says
that a C function called with no exception pending and no memory held keeps to this and leaves no exception; there is
one lemma for each function.

* `sessions_safe_iff`: sessions keep to the interfaces exactly when the JVM is `Reliable` and they clear only callbacks
  that exist.
* `sessions_leak`: the memory that stays allocated after a session.
-/

namespace YellowTree

namespace Native

open ApiProgram Handles

variable {Ref : Type}

/-! ## What holds between two calls -/

section Holding

/-- No exception is pending; of the blocks that JVMTI has allocated and that were not given back the C code still has
`own`, has dropped `drop`, and the others are lost. -/
structure Holding (drop own : List ℕ) (s : NativeState) : Prop where
  pending : s.pending = false
  split : Split s.blocks own (s.lost ++ drop)

/-- After an error at most one block more is dropped. -/
def Dropped (drop : List ℕ) (s : NativeState) : Prop := ∃ ds, ds.length ≤ 1 ∧ Holding (ds ++ drop) [] s

variable {drop own : List ℕ} {s : NativeState}

theorem Holding.dropped (h : Holding drop [] s) : Dropped drop s := ⟨[], Nat.zero_le 1, h⟩

theorem Holding.dropOne {b : ℕ} (h : Holding drop [b] s) : Dropped drop s :=
  ⟨[b], Nat.le_refl 1, h.pending, h.split.abandon.of_perm_unowned List.perm_middle.symm⟩

theorem Holding.of_perm {own' : List ℕ} (h : Holding drop own s) (hperm : own.Perm own') : Holding drop own' s :=
  ⟨h.pending, h.split.of_perm hperm⟩

theorem Holding.alloc (h : Holding drop own s) : Holding drop (s.blocks.next :: own) s.alloc :=
  ⟨h.pending, h.split.alloc_owned⟩

theorem Holding.free {b : ℕ} (h : Holding drop (b :: own) s) : Holding drop own (s.free b) :=
  ⟨h.pending, h.split.free⟩

theorem Holding.mem_live {b : ℕ} (h : Holding drop (b :: own) s) : b ∈ s.blocks.live :=
  h.split.mem_of_owned List.mem_cons_self

theorem Holding.allocLost (h : Holding drop own s) : Holding drop own s.allocLost :=
  ⟨h.pending, h.split.alloc_owned.abandon⟩

theorem Holding.allocManyLost (h : Holding drop own s) (n : ℕ) : Holding drop own (s.allocManyLost n) := by
  induction n generalizing s with
  | zero => exact h
  | succ n ih => exact ih h.allocLost

theorem Holding.gives {b : ℕ} {t : NativeState} (h : Holding drop own s) (hb : s.Gives b t) :
    Holding drop (b :: own) t := by
  obtain ⟨rfl, rfl⟩ := hb
  exact h.alloc

theorem Holding.givesArray {α : Type} {xs : List α} {block : Option ℕ} {t : NativeState} (h : Holding drop own s)
    (hb : s.GivesArray xs block t) : Holding drop (block.toList ++ own) t := by
  cases block with
  | none =>
    obtain ⟨-, rfl⟩ := hb
    exact h
  | some b => exact h.gives hb.2

end Holding

/-! ## The helpers -/

section Helpers

variable {jvm : Jvm Ref} {drop own : List ℕ} {s : NativeState} {α β : Type}

/-- One call. -/
theorem meets_api {o : ApiOp Ref} {f : o.Reply → NativeProg Ref β} {Q : β → NativeState → Prop}
    {E : LuaError → NativeState → Prop} (hreq : requires s o)
    (h : ∀ r t, jvm.replies s o r t → Meets jvm.interface (f r) t Q E) :
    Meets jvm.interface (api o >>= f) s Q E :=
  meets_bind.mpr ⟨hreq, h⟩

/-- EXCEPTION_CHECK, after a call that may have thrown. -/
theorem meets_exceptionCheck {f : Unit → NativeProg Ref β} {Q : β → NativeState → Prop}
    {E : LuaError → NativeState → Prop} (hs : Holding drop own s) (pending : Bool)
    (h : ∀ t, Holding drop own t → Meets jvm.interface (f ()) t Q E) :
    Meets jvm.interface (exceptionCheck >>= f) (s.throw pending) Q E := by
  refine meets_bind.mpr (meets_api nofun ?_)
  rintro r t ⟨rfl, rfl⟩
  cases r with
  | false => exact h _ ⟨rfl, hs.split⟩
  | true =>
    refine meets_api nofun ?_
    rintro - t rfl
    refine ⟨nofun, ?_⟩
    rintro - t rfl
    exact h _ ⟨rfl, hs.split⟩

/-- EXCEPTION_CLEAR. -/
theorem meets_exceptionClear {f : Unit → NativeProg Ref β} {Q : β → NativeState → Prop}
    {E : LuaError → NativeState → Prop} (hs : Holding drop own s) (pending : Bool)
    (h : ∀ t, Holding drop own t → Meets jvm.interface (f ()) t Q E) :
    Meets jvm.interface (exceptionClear >>= f) (s.throw pending) Q E := by
  refine meets_bind.mpr (meets_api nofun ?_)
  rintro r t ⟨rfl, rfl⟩
  cases r with
  | false => exact h _ ⟨rfl, hs.split⟩
  | true =>
    refine ⟨nofun, ?_⟩
    rintro - t rfl
    exact h _ ⟨rfl, hs.split⟩

/-- `luaL_check..`, before memory is allocated. -/
theorem meets_check {x : Except LuaError α} {f : α → NativeProg Ref β} {Q : β → NativeState → Prop}
    {E : LuaError → NativeState → Prop} (hE : ∀ e, E e s) (h : ∀ a, Meets jvm.interface (f a) s Q E) :
    Meets jvm.interface (Prog.ofExcept x >>= f) s Q E :=
  meets_bind.mpr (Meets.ofExcept (fun a _ => h a) fun e _ => hE e)

theorem meets_jvmtiError {err : String} {Q : α → NativeState → Prop} {E : LuaError → NativeState → Prop}
    (hs : Holding drop own s) (hE : ∀ e t, Holding drop own t → E e t) :
    Meets jvm.interface (checkJvmtiError (.error err)) s Q E := by
  refine meets_api nofun ?_
  intro r t ht
  cases r with
  | none =>
    obtain rfl := ht
    exact hE _ _ hs
  | some b =>
    obtain ⟨-, rfl⟩ := ht
    exact hE _ _ hs.allocLost

/-- An error code that is checked. -/
theorem meets_checkJvmtiError (own : List ℕ) {r : Except String α} {f : α → NativeProg Ref β}
    {Q : β → NativeState → Prop} {E : LuaError → NativeState → Prop}
    (hok : ∀ a, r = .ok a → Meets jvm.interface (f a) s Q E)
    (herror : ∀ err, r = .error err → Holding drop own s) (hE : ∀ e t, Holding drop own t → E e t) :
    Meets jvm.interface (checkJvmtiError r >>= f) s Q E := by
  cases r with
  | ok a => exact hok a rfl
  | error err => exact meets_bind.mpr (meets_jvmtiError (herror err rfl) hE)

/-- The memory that is held is given back. -/
theorem meets_freeJvmtiRefs (bs : List ℕ) {f : Unit → NativeProg Ref β} {Q : β → NativeState → Prop}
    {E : LuaError → NativeState → Prop} (hs : Holding drop (bs ++ own) s)
    (h : ∀ t, Holding drop own t → Meets jvm.interface (f ()) t Q E) :
    Meets jvm.interface (freeJvmtiRefs bs >>= f) s Q E := by
  induction bs generalizing s with
  | nil => exact h s hs
  | cons b bs ih =>
    refine meets_bind.mpr (meets_api hs.mem_live ?_)
    rintro - t rfl
    exact meets_bind.mp (ih hs.free)

end Helpers

/-! ## The functions -/

section Functions

/-- Called with no exception pending and no memory held, the program keeps to the interface and leaves it so. -/
def Tidy (jvm : Jvm Ref) {α : Type} (p : NativeProg Ref α) : Prop :=
  ∀ drop s, Holding drop [] s → Meets jvm.interface p s (fun _ => Holding drop []) (fun _ => Dropped drop)

variable {jvm : Jvm Ref} {ms : Set Ref} {names : Set LuaString} {drop own : List ℕ} {s : NativeState} {α β : Type}
  {e : MarshalEnv} {args : List (CValue Ref)}

/-- A call that may throw, and EXCEPTION_CHECK. -/
theorem meets_checked {o : ApiOp Ref} {f : o.Reply → NativeProg Ref β} {Q : β → NativeState → Prop}
    {E : LuaError → NativeState → Prop} (hreq : requires s o) (hs : Holding drop own s)
    (hthrow : ∀ r t, jvm.replies s o r t → ∃ pending, t = s.throw pending)
    (h : ∀ r t, (∃ t', jvm.replies s o r t') → Holding drop own t → Meets jvm.interface (f r) t Q E) :
    Meets jvm.interface (api o >>= fun r => exceptionCheck >>= fun _ => f r) s Q E := by
  refine meets_api hreq fun r t ht => ?_
  obtain ⟨pending, rfl⟩ := hthrow r t ht
  exact meets_exceptionCheck hs pending fun u hu => h r u ⟨_, ht⟩ hu

theorem tidy_request (r : Request Ref) : Tidy jvm (request r) := by
  intro drop s hs
  refine meets_api nofun ?_
  rintro r t rfl
  exact meets_checkJvmtiError _ (fun _ _ => hs) (fun _ _ => hs) fun _ _ ht => ht.dropped

theorem tidy_ljFindClass : Tidy jvm (ljFindClass e args) := by
  intro drop s hs
  refine meets_check (fun _ => hs.dropped) fun className => meets_api (fun _ => hs.pending) ?_
  rintro r t rfl
  cases r with
  | none =>
    refine meets_api nofun ?_
    rintro - t rfl
    exact ⟨rfl, hs.split⟩
  | some cls => exact ⟨rfl, hs.split⟩

/-- A JVMTI function that allocates nothing. -/
theorem meets_jvmti {γ : Type} {r : Except String γ} {f : γ → NativeProg Ref β} {Q : β → NativeState → Prop}
    (hs : Holding drop [] s) (hok : ∀ a, Meets jvm.interface (f a) s Q fun _ => Dropped drop) :
    Meets jvm.interface (checkJvmtiError r >>= f) s Q fun _ => Dropped drop :=
  meets_checkJvmtiError _ (fun a _ => hok a) (fun _ _ => hs) fun _ _ h => h.dropped

/-- A JVMTI function that gives an array. -/
theorem meets_array {γ : Type} {r : Except String (List γ × Option ℕ)} {f : List γ × Option ℕ → NativeProg Ref β}
    {Q : β → NativeState → Prop} {t : NativeState} (hs : Holding drop [] s)
    (ht : s.UnlessError r t fun a => s.GivesArray a.1 a.2 t)
    (hok : ∀ xs block, Holding drop (block.toList ++ []) t →
      Meets jvm.interface (f (xs, block)) t Q fun _ => Dropped drop) :
    Meets jvm.interface (checkJvmtiError r >>= f) t Q fun _ => Dropped drop := by
  refine meets_checkJvmtiError [] ?_ (fun err h => ?_) fun _ _ h => h.dropped
  · rintro ⟨xs, block⟩ rfl
    exact hok xs block (hs.givesArray ht)
  · subst h
    obtain rfl := ht
    exact hs

theorem tidy_ljGetClassFields : Tidy jvm (ljGetClassFields args) := by
  intro drop s hs
  refine meets_check (fun _ => hs.dropped) fun cls => meets_api nofun fun r t ht => ?_
  exact meets_array hs ht fun fields block h => meets_freeJvmtiRefs _ h fun _ h => h

theorem tidy_ljGetClassMethods : Tidy jvm (ljGetClassMethods args) := by
  intro drop s hs
  refine meets_check (fun _ => hs.dropped) fun cls => meets_api nofun fun r t ht => ?_
  exact meets_array hs ht fun methods block h => meets_freeJvmtiRefs _ h fun _ h => h

/-- An error that is made nil, or else raised. -/
theorem meets_nilOnError {c : Prop} [Decidable c] {err : String} (hs : Holding drop [] s) :
    Meets jvm.interface (if c then pure [.nil] else checkJvmtiError (.error err) : NativeProg Ref (List (CValue Ref))) s
      (fun _ => Holding drop []) fun _ => Dropped drop :=
  Meets.ite (fun _ => hs) fun _ => meets_jvmtiError hs fun _ _ h => h.dropped

theorem tidy_ljGetSourceFilename : Tidy jvm (ljGetSourceFilename args) := by
  intro drop s hs
  refine meets_check (fun _ => hs.dropped) fun cls => meets_api nofun fun r t ht => ?_
  cases r with
  | error err =>
    obtain rfl := ht
    exact meets_nilOnError hs
  | ok r => exact meets_freeJvmtiRefs [r.2] (hs.gives ht) fun _ h => h

/-- The array of classes is still held. -/
theorem meets_loadedClass {b : List ℕ} {cls : Ref} (hs : Holding drop b s) :
    Meets jvm.interface (loadedClass cls) s (fun _ => Holding drop b) fun _ => Holding drop b := by
  refine meets_api nofun fun r t ht => meets_checkJvmtiError b ?_ (fun err h => ?_) fun _ _ h => h
  · rintro ⟨classSig, block⟩ rfl
    have ht' : Holding drop (block :: b) t := hs.gives ht
    exact meets_checked (fun _ => ht'.pending) ht' (fun _ _ h => h) fun _ u _ hu =>
      meets_freeJvmtiRefs [block] hu fun _ h => h
  · subst h
    obtain rfl := ht
    exact hs

theorem tidy_ljGetLoadedClasses : Tidy jvm (ljGetLoadedClasses : NativeProg Ref _) := by
  intro drop s hs
  refine meets_api nofun fun r t ht => meets_array hs ht fun classes block h => ?_
  refine meets_bind.mpr ((Meets.each h fun cls _ u hu => meets_loadedClass hu).mono (fun entries u hu => ?_) ?_)
  · exact meets_freeJvmtiRefs _ hu fun _ h => h
  · -- the class whose signature JVMTI does not give
    intro err u hu
    cases block with
    | none => exact hu.dropped
    | some b => exact hu.dropOne

theorem meets_classInstance {o : Ref} {E : LuaError → NativeState → Prop} (hs : Holding drop own s) :
    Meets jvm.interface (classInstance o) s (fun _ => Holding drop own) E :=
  meets_checked (fun _ => hs.pending) hs (fun _ _ h => h) fun _ _ _ h => h

theorem tidy_ljGetClassInstances : Tidy jvm (ljGetClassInstances args) := by
  intro drop s hs
  refine meets_check (fun _ => hs.dropped) fun cls => meets_api nofun ?_
  rintro r t rfl
  refine meets_jvmti hs fun _ => meets_api nofun fun r u hu => ?_
  refine meets_checkJvmtiError [] ?_ (fun err h => ?_) fun _ _ h => h.dropped
  · rintro ⟨objects, blocks⟩ rfl
    obtain ⟨v, hv, hu⟩ := hu
    have hheld : Holding drop (blocks.elim [] (fun b => [b.1, b.2]) ++ []) u := by
      cases blocks with
      | none => exact (hs.givesArray hv).givesArray hu
      | some b => exact ((hs.givesArray hv).givesArray hu).of_perm (List.Perm.swap _ _ _)
    refine meets_bind.mpr ((Meets.each hheld (E := fun _ _ => False) fun o _ w hw => meets_classInstance hw).mono ?_ ?_)
    · exact fun entries w hw => meets_freeJvmtiRefs _ hw fun _ h => h
    · exact fun _ _ h => h.elim
  · subst h
    obtain rfl := hu
    exact hs

/-- The state after a call that may have thrown. -/
def Throws (drop : List ℕ) (s : NativeState) : Prop := ∃ t pending, Holding drop [] t ∧ s = t.throw pending

/-- What both calls throw is cleared. -/
theorem meets_memberId {p q : NativeProg Ref (Option Ref)} {f : Option Ref → NativeProg Ref β}
    {Q : β → NativeState → Prop} {E : LuaError → NativeState → Prop} (hs : Holding drop [] s)
    (hp : ∀ t, Holding drop [] t → Meets jvm.interface p t (fun _ => Throws drop) E)
    (hq : ∀ t, Holding drop [] t → Meets jvm.interface q t (fun _ => Throws drop) E)
    (h : ∀ id t, Holding drop [] t → Meets jvm.interface (f id) t Q E) :
    Meets jvm.interface (memberId p q >>= f) s Q E := by
  refine meets_bind.mpr (meets_bind.mpr ((hp s hs).mono ?_ fun _ _ h => h))
  rintro id _ ⟨t, pending, ht, rfl⟩
  refine meets_exceptionClear ht pending fun u hu => ?_
  cases id with
  | some m => exact meets_exceptionClear hu u.pending fun v hv => h (some m) v hv
  | none =>
    refine meets_bind.mpr ((hq u hu).mono ?_ fun _ _ h => h)
    rintro id _ ⟨v, pending, hv, rfl⟩
    exact meets_exceptionClear hv pending fun w hw => h id w hw

theorem tidy_ljGetFieldId : Tidy jvm (ljGetFieldId e args) := by
  intro drop s hs
  refine meets_check (fun _ => hs.dropped) fun className => ?_
  refine meets_check (fun _ => hs.dropped) fun fieldName => ?_
  refine meets_check (fun _ => hs.dropped) fun sig => meets_api (fun _ => hs.pending) ?_
  rintro cls t rfl
  refine meets_exceptionClear hs _ fun t ht => ?_
  cases cls with
  | none => exact ht
  | some cls =>
    refine meets_memberId ht (fun u hu => ?_) (fun u hu => ?_) fun id u hu => ?_
    · exact ⟨fun _ => hu.pending, fun r v hv => ⟨u, _, hu, hv⟩⟩
    · exact ⟨fun _ => hu.pending, fun r v hv => ⟨u, _, hu, hv⟩⟩
    · cases id with
      | none => exact hu
      | some f => exact hu

theorem tidy_ljGetFieldName : Tidy jvm (ljGetFieldName args) := by
  intro drop s hs
  refine meets_check (fun _ => hs.dropped) fun cls => meets_api nofun fun r t ht => ?_
  refine meets_checkJvmtiError [] ?_ (fun err h => ?_) fun _ _ h => h.dropped
  · rintro ⟨⟨name, b⟩, ⟨sig, c⟩⟩ rfl
    have hheld : Holding drop ([b, c] ++ []) t := ((hs.gives ht.1).gives ht.2).of_perm (List.Perm.swap _ _ _)
    exact meets_freeJvmtiRefs _ hheld fun _ h => h
  · subst h
    obtain rfl := ht
    exact hs

theorem tidy_ljGetFieldDeclaringClass : Tidy jvm (ljGetFieldDeclaringClass args) := by
  intro drop s hs
  refine meets_check (fun _ => hs.dropped) fun cls => meets_api nofun ?_
  rintro r t rfl
  exact meets_jvmti hs fun _ => hs

theorem tidy_ljGetFieldModifiers : Tidy jvm (ljGetFieldModifiers args) := by
  intro drop s hs
  refine meets_check (fun _ => hs.dropped) fun cls => meets_api nofun ?_
  rintro r t rfl
  exact meets_jvmti hs fun _ => hs

theorem tidy_ljGetField : Tidy jvm (ljGetField args) := by
  intro drop s hs
  refine meets_check (fun _ => hs.dropped) fun object => ?_
  refine meets_check (fun _ => hs.dropped) fun field => ?_
  refine meets_check (fun _ => hs.dropped) fun _ => meets_api nofun fun r t ht => ?_
  refine meets_checkJvmtiError [] ?_ (fun err h => ?_) fun _ _ h => h.dropped
  · rintro ⟨sig, b⟩ rfl
    obtain ⟨-, rfl⟩ := ht
    have ht := hs.allocLost
    dsimp only
    cases fieldKind sig with
    | none => exact ht
    | some kind =>
      exact meets_checked (fun _ => ht.pending) ht (fun _ _ h => ⟨_, h.2⟩) fun _ _ _ h => h
  · subst h
    obtain rfl := ht
    exact hs

theorem tidy_ljSetFieldAccessWatch : Tidy jvm (ljSetFieldAccessWatch args) := fun drop s hs =>
  meets_check (fun _ => hs.dropped) fun _ => tidy_request _ drop s hs

theorem tidy_ljSetFieldModificationWatch : Tidy jvm (ljSetFieldModificationWatch args) := fun drop s hs =>
  meets_check (fun _ => hs.dropped) fun _ => tidy_request _ drop s hs

theorem tidy_ljGetMethodId : Tidy jvm (ljGetMethodId e args) := by
  intro drop s hs
  refine meets_check (fun _ => hs.dropped) fun cls => ?_
  refine meets_check (fun _ => hs.dropped) fun methodName => ?_
  refine meets_check (fun _ => hs.dropped) fun params => ?_
  refine meets_check (fun _ => hs.dropped) fun ret => ?_
  refine meets_memberId hs (fun u hu => ?_) (fun u hu => ?_) fun id u hu => ?_
  · exact ⟨fun _ => hu.pending, fun r v hv => ⟨u, _, hu, hv⟩⟩
  · exact ⟨fun _ => hu.pending, fun r v hv => ⟨u, _, hu, hv⟩⟩
  · cases id with
    | none => exact hu
    | some m => exact hu

theorem tidy_ljGetLocalVariableTable : Tidy jvm (ljGetLocalVariableTable args) := by
  intro drop s hs
  refine meets_check (fun _ => hs.dropped) fun method => meets_api nofun fun r t ht => ?_
  cases r with
  | error err =>
    obtain rfl := ht
    exact meets_nilOnError hs
  | ok r =>
    obtain ⟨u, n, hu, -, -, rfl⟩ := ht
    exact meets_freeJvmtiRefs _ ((hs.givesArray hu).allocManyLost n) fun _ h => h

theorem tidy_ljGetLineNumberTable (hline : ¬ jvm.lineTableFails) : Tidy jvm (ljGetLineNumberTable args) := by
  intro drop s hs
  refine meets_check (fun _ => hs.dropped) fun method => meets_api nofun fun r t ht => ?_
  cases r with
  | error err =>
    obtain ⟨rfl, hfails⟩ := ht
    refine Meets.ite (fun _ => hs) fun herr => ?_
    rw [not_or] at herr
    exact absurd (hfails err rfl herr.1 herr.2) hline
  | ok r => exact meets_freeJvmtiRefs _ (hs.givesArray ht.1) fun _ h => h

theorem tidy_ljGetMethodName : Tidy jvm (ljGetMethodName args) := by
  intro drop s hs
  refine meets_check (fun _ => hs.dropped) fun method => meets_api nofun fun r t ht => ?_
  refine meets_checkJvmtiError [] ?_ (fun err h => ?_) fun _ _ h => h.dropped
  · rintro ⟨⟨name, b⟩, ⟨sig, c⟩⟩ rfl
    have hheld : Holding drop ([b, c] ++ []) t := ((hs.gives ht.1).gives ht.2).of_perm (List.Perm.swap _ _ _)
    exact meets_freeJvmtiRefs _ hheld fun _ h => h
  · subst h
    obtain rfl := ht
    exact hs

theorem tidy_ljGetMethodDeclaringClass : Tidy jvm (ljGetMethodDeclaringClass args) := by
  intro drop s hs
  refine meets_check (fun _ => hs.dropped) fun method => meets_api nofun ?_
  rintro r t rfl
  exact meets_jvmti hs fun _ => hs

theorem tidy_ljGetMethodModifiers : Tidy jvm (ljGetMethodModifiers args) := by
  intro drop s hs
  refine meets_check (fun _ => hs.dropped) fun method => meets_api nofun ?_
  rintro r t rfl
  exact meets_jvmti hs fun _ => hs

theorem tidy_ljSetBreakpoint : Tidy jvm (ljSetBreakpoint e args) := fun drop s hs =>
  meets_check (fun _ => hs.dropped) fun _ => meets_check (fun _ => hs.dropped) fun _ => tidy_request _ drop s hs

theorem tidy_ljClearBreakpoint : Tidy jvm (ljClearBreakpoint e args) := fun drop s hs =>
  meets_check (fun _ => hs.dropped) fun _ => meets_check (fun _ => hs.dropped) fun _ => tidy_request _ drop s hs

/-- What is held stays held. -/
theorem meets_readArg (hstring : ¬ jvm.newStringFails) {argtype : LuaString} {v : Option (CValue Ref)}
    (hs : Holding drop own s) :
    Meets jvm.interface (readArg e argtype v) s (fun _ => Holding drop own) fun _ => Holding drop own := by
  have hinteger : ∀ p, Meets jvm.interface (integerArg e p v) s (fun _ => Holding drop own) fun _ => Holding drop own :=
    fun p => Meets.ofExcept (fun _ _ => hs) fun _ _ => hs
  refine Meets.ite (fun _ => hs) fun _ => Meets.ite (fun _ => ?_) fun _ => Meets.ite (fun _ => ?_) fun _ => ?_
  · exact meets_check (fun _ => hs) fun _ => hs
  · refine meets_check (fun _ => hs) fun text => meets_api (fun _ => hs.pending) ?_
    rintro r t ⟨rfl, hfails⟩
    cases r with
    | none => exact absurd (hfails rfl) hstring
    | some string => exact ⟨rfl, hs.split⟩
  · refine Meets.ite (fun _ => meets_check (fun _ => hs) fun _ => hs) fun _ => ?_
    refine Meets.ite (fun _ => hinteger .B) fun _ => Meets.ite (fun _ => hinteger .C) fun _ => ?_
    refine Meets.ite (fun _ => hinteger .S) fun _ => Meets.ite (fun _ => hinteger .I) fun _ => ?_
    refine Meets.ite (fun _ => hinteger .J) fun _ => ?_
    refine Meets.ite (fun _ => meets_check (fun _ => hs) fun _ => hs) fun _ => ?_
    exact Meets.ite (fun _ => meets_check (fun _ => hs) fun _ => hs) fun _ => hs

theorem meets_readArgs (hstring : ¬ jvm.newStringFails) {argcount : ℕ} (args : List (CValue Ref))
    (hs : Holding drop own s) :
    Meets jvm.interface (readArgs e argcount args) s (fun _ => Holding drop own) fun _ => Holding drop own := by
  induction argcount generalizing args s with
  | zero => exact hs
  | succ argcount ih =>
    refine meets_check (fun _ => hs) fun argtype => meets_bind.mpr ((meets_readArg hstring hs).mono ?_ fun _ _ h => h)
    intro arg t ht
    exact meets_bind.mpr ((ih (args.drop 2) ht).mono (fun _ _ h => h) fun _ _ h => h)

/-- A string that is read is released. -/
theorem meets_newString (hchars : ¬ jvm.stringCharsFail) {string : Ref} {E : LuaError → NativeState → Prop}
    (hs : Holding drop own s) :
    Meets jvm.interface (newString (some string)) s (fun _ => Holding drop own) E := by
  refine meets_api ⟨hs.pending, rfl⟩ fun r t ht => ?_
  cases r with
  | none => exact absurd ht.1 hchars
  | some utfChars =>
    obtain rfl := ht
    exact meets_checked nofun hs (fun _ _ h => ⟨_, h⟩) fun _ _ _ h => h

theorem meets_pushValue (hchars : ¬ jvm.stringCharsFail) {ret : LuaString} {val : JniValue Ref}
    {E : LuaError → NativeState → Prop} (hval : pushesString ret = true → val ≠ .reference none)
    (hs : Holding drop own s) :
    Meets jvm.interface (pushValue ret val) s (fun _ => Holding drop own) E := by
  cases val with
  | reference o =>
    unfold pushValue
    split_ifs with hstring
    · cases o with
      | none => exact absurd rfl (hval hstring)
      | some string => exact meets_bind.mpr ((meets_newString hchars hs).mono (fun _ _ h => h) fun _ _ h => h)
    · exact hs
  | _ => exact hs

/-- The tags for which `lj_call_method` makes a string of an object. -/
def IsStringTag (ret : LuaString) : Prop := (ret.head? = some 'L' ∨ ret = "STR".toList) ∧ ret ≠ ['L']

theorem isStringTag_of_call {methodName ret : LuaString} {isStatic : Bool} {call : JniCall} {val : JniValue Ref}
    (hcall : callFor methodName isStatic ret = some call) (hval : val.OfCall call) (hnull : val = .reference none)
    (hpushes : pushesString ret = true) : IsStringTag ret := by
  subst hnull
  obtain ⟨hL, harray⟩ : ret ≠ ['L'] ∧ ret.head? ≠ some '[' := by
    unfold pushesString at hpushes
    simpa using hpushes
  refine ⟨?_, hL⟩
  unfold callFor at hcall
  split_ifs at hcall with hvoid hobject hinit
  · obtain rfl := Option.some.inj hcall
    exact hval.elim
  · exact hobject.imp_right fun h => h.resolve_left harray
  · exact hobject.imp_right fun h => h.resolve_left harray
  · obtain ⟨p, -, rfl⟩ := Option.map_eq_some_iff.mp hcall
    cases p <;> exact hval.elim

/-- Arguments of `lj_call_method`: only a method of `ms` is called for a string. -/
def StringsFrom (ms : Set Ref) (e : MarshalEnv) (args : List (CValue Ref)) : Prop :=
  ∀ m ret, checkMethodId args[1]? = .ok m → checkString e args[3]? = .ok ret → IsStringTag ret → m ∈ ms

theorem tidy_ljCallMethod (hstring : ¬ jvm.newStringFails) (hchars : ¬ jvm.stringCharsFail)
    (hreturns : ∀ m ∈ ms, jvm.returnsObject m) (hargs : StringsFrom ms e args) : Tidy jvm (ljCallMethod e args) := by
  intro drop s hs
  refine meets_check (fun _ => hs.dropped) fun object => ?_
  refine meets_bind.mpr (Meets.ofExcept (fun methodId hmethod => ?_) fun _ _ => hs.dropped)
  refine meets_bind.mpr (Meets.ofExcept (fun ret hret => ?_) fun _ _ => hs.dropped)
  refine meets_check (fun _ => hs.dropped) fun argcount => meets_api nofun fun r t ht => ?_
  refine meets_checkJvmtiError [] ?_ (fun err h => ?_) fun _ _ h => h.dropped
  · rintro ⟨methodName, b⟩ rfl
    have ht : Holding drop [b] t := hs.gives ht
    refine meets_bind.mpr ((meets_readArgs hstring _ ht).mono (fun jargs u hu => ?_) fun _ _ hu => hu.dropOne)
    cases hcall : callFor methodName (toBoolean args[2]?) ret with
    | none => exact hu.dropOne
    | some call =>
      refine meets_checked (fun _ => hu.pending) hu (fun _ _ h => h.2.2) fun val v hval hv => ?_
      obtain ⟨-, hof, hnull, -⟩ := hval
      have hpush : pushesString ret = true → val ≠ .reference none := fun hpushes hnone =>
        hnull (hreturns _ (hargs methodId ret hmethod hret (isStringTag_of_call hcall hof hnone hpushes))) hnone
      refine meets_bind.mpr ((meets_pushValue hchars hpush hv).mono (fun results w hw => ?_) fun _ _ h => h)
      exact meets_freeJvmtiRefs [b] hw fun _ h => h
  · subst h
    obtain rfl := ht
    exact hs

theorem tidy_ljToString (hchars : ¬ jvm.stringCharsFail) : Tidy jvm (ljToString args) := by
  intro drop s hs
  refine meets_check (fun _ => hs.dropped) fun object => ?_
  refine meets_checked (fun _ => hs.pending) hs (fun _ _ h => ⟨_, h⟩) fun cls t _ ht => ?_
  cases cls with
  | none => exact ht
  | some cls =>
    refine meets_checked (fun _ => ht.pending) ht (fun _ _ h => ⟨_, h⟩) fun methodId u _ hu => ?_
    cases methodId with
    | none => exact hu
    | some methodId =>
      refine meets_checked (fun _ => hu.pending) hu (fun _ _ h => h.2.2) fun val v _ hv => ?_
      cases val with
      | reference o =>
        cases o with
        | none => exact hv
        | some string => exact meets_bind.mpr ((meets_newString hchars hv).mono (fun _ _ h => h) fun _ _ h => h)
      | _ => exact hv

theorem tidy_ljGetArrayLength : Tidy jvm (ljGetArrayLength args) := fun _ s hs =>
  meets_check (fun _ => hs.dropped) fun _ =>
    meets_checked (fun _ => hs.pending) hs (fun _ _ h => ⟨s.pending, h⟩) fun _ _ _ h => h

theorem meets_assertArray {className : LuaString} {f : Unit → NativeProg Ref β} {Q : β → NativeState → Prop}
    {E : LuaError → NativeState → Prop} (h : Meets jvm.interface (f ()) s Q E) :
    Meets jvm.interface (assertArray className >>= f) s Q E :=
  meets_bind.mpr (Meets.ite (fun _ => ⟨nofun, fun never => nomatch never⟩) fun _ => h)

theorem tidy_ljGetArrayElement : Tidy jvm (ljGetArrayElement e args) := by
  intro drop s hs
  refine meets_check (fun _ => hs.dropped) fun array => ?_
  refine meets_check (fun _ => hs.dropped) fun className => ?_
  refine meets_check (fun _ => hs.dropped) fun index => meets_assertArray ?_
  cases componentKind className with
  | none => exact hs.dropped
  | some kind => exact meets_checked (fun _ => hs.pending) hs (fun _ _ h => h.2) fun _ _ _ h => h

theorem meets_readElement {v : Option (CValue Ref)} {kind : RetKind} (hs : Holding drop own s) :
    Meets jvm.interface (readElement e v kind) s (fun _ => Holding drop own) fun _ => Holding drop own := by
  unfold readElement
  split
  · exact meets_check (fun _ => hs) fun _ => hs
  · exact meets_check (fun _ => hs) fun _ => hs
  · exact meets_check (fun _ => hs) fun _ => hs
  · exact Meets.ofExcept (fun _ _ => hs) fun _ _ => hs
  · split
    · exact hs
    · exact meets_check (fun _ => hs) fun _ => hs

theorem tidy_ljSetArrayElement : Tidy jvm (ljSetArrayElement e args) := by
  intro drop s hs
  refine meets_check (fun _ => hs.dropped) fun array => ?_
  refine meets_check (fun _ => hs.dropped) fun className => ?_
  refine meets_check (fun _ => hs.dropped) fun index => meets_assertArray ?_
  cases componentKind className with
  | none => exact hs
  | some kind =>
    refine meets_bind.mpr ((meets_readElement hs).mono (fun val t ht => ?_) fun _ _ h => h.dropped)
    exact meets_checked (fun _ => ht.pending) ht (fun _ _ h => h) fun _ _ _ h => h

theorem tidy_ljNewGlobalRef : Tidy jvm (ljNewGlobalRef args) := fun _ _ hs =>
  meets_check (fun _ => hs.dropped) fun _ =>
    meets_checked (fun _ => hs.pending) hs (fun _ _ h => h) fun _ _ _ h => h

theorem tidy_ljDeleteGlobalRef : Tidy jvm (ljDeleteGlobalRef args) := fun _ s hs =>
  meets_check (fun _ => hs.dropped) fun _ =>
    meets_checked nofun hs (fun _ _ h => ⟨s.pending, h⟩) fun _ _ _ h => h

theorem meets_assertNonNull {o : Option Ref} {f : Ref → NativeProg Ref β} {Q : β → NativeState → Prop}
    {E : LuaError → NativeState → Prop} (h : ∀ r, Meets jvm.interface (f r) s Q E) :
    Meets jvm.interface (assertNonNull o >>= f) s Q E := by
  cases o with
  | none => exact ⟨nofun, fun never => nomatch never⟩
  | some r => exact h r

theorem meets_getCurrentJavaThread {currentThread : Option Ref} {f : Ref → NativeProg Ref β}
    {Q : β → NativeState → Prop} {E : LuaError → NativeState → Prop} (hs : Holding drop own s)
    (h : ∀ r t, Holding drop own t → Meets jvm.interface (f r) t Q E) :
    Meets jvm.interface (getCurrentJavaThread currentThread >>= f) s Q E := by
  cases currentThread with
  | some thread => exact h thread s hs
  | none =>
    refine meets_bind.mpr ?_
    refine meets_checked (fun _ => hs.pending) hs (fun _ _ h => ⟨_, h⟩) fun cls t _ ht => ?_
    refine meets_assertNonNull fun cls => ?_
    refine meets_checked (fun _ => ht.pending) ht (fun _ _ h => ⟨_, h⟩) fun id u _ hu => ?_
    refine meets_assertNonNull fun id => ?_
    refine meets_api (fun _ => hu.pending) fun val v hv => ?_
    obtain ⟨hof, -, pending, rfl⟩ := hv
    cases val with
    | reference o =>
      refine meets_exceptionCheck hu pending fun w hw => ?_
      exact meets_bind.mp (meets_assertNonNull fun thread => h thread w hw)
    | _ => exact hof.elim

theorem tidy_ljGetCurrentThread {currentThread : Option Ref} : Tidy jvm (ljGetCurrentThread currentThread) :=
  fun _ _ hs => meets_getCurrentJavaThread hs fun _ _ ht => ht

theorem tidy_ljGetAllThreads : Tidy jvm (ljGetAllThreads : NativeProg Ref _) := by
  intro drop s hs
  refine meets_api nofun fun r t ht => ?_
  exact meets_array hs ht fun threads block h => meets_freeJvmtiRefs _ h fun _ h => h

theorem tidy_ljGetFrameCount : Tidy jvm (ljGetFrameCount args) := by
  intro drop s hs
  refine meets_check (fun _ => hs.dropped) fun thread => meets_api nofun ?_
  rintro r t rfl
  exact meets_jvmti hs fun _ => hs

theorem tidy_ljGetStackFrame : Tidy jvm (ljGetStackFrame e args) := by
  intro drop s hs
  refine meets_check (fun _ => hs.dropped) fun thread => ?_
  refine meets_check (fun _ => hs.dropped) fun frameNum => meets_api nofun ?_
  rintro r t rfl
  split
  · exact hs
  · exact hs

theorem tidy_ljGetLocalVariable {currentThread : Option Ref} : Tidy jvm (ljGetLocalVariable e currentThread args) := by
  intro drop s hs
  refine meets_check (fun _ => hs.dropped) fun depth => ?_
  refine meets_check (fun _ => hs.dropped) fun slot => ?_
  refine meets_check (fun _ => hs.dropped) fun type => ?_
  cases localKind type with
  | none => exact hs
  | some kind =>
    refine meets_getCurrentJavaThread hs fun thread t ht => meets_api nofun fun r u hu => ?_
    cases r with
    | error err =>
      obtain rfl := hu
      exact meets_nilOnError ht
    | ok val =>
      obtain ⟨-, rfl⟩ := hu
      exact ht

theorem tidy_ljForceEarlyReturnObject : Tidy jvm (ljForceEarlyReturnObject args) := by
  intro drop s hs
  refine meets_check (fun _ => hs.dropped) fun thread => ?_
  split
  · exact tidy_request _ drop s hs
  · exact meets_check (fun _ => hs.dropped) fun _ => tidy_request _ drop s hs

theorem tidy_ljForceEarlyReturnInt : Tidy jvm (ljForceEarlyReturnInt e args) := by
  intro drop s hs
  refine meets_check (fun _ => hs.dropped) fun thread => ?_
  split
  · exact tidy_request _ drop s hs
  · exact meets_check (fun _ => hs.dropped) fun _ => tidy_request _ drop s hs

theorem tidy_ljForceEarlyReturnVoid : Tidy jvm (ljForceEarlyReturnVoid args) := fun drop s hs =>
  meets_check (fun _ => hs.dropped) fun _ => tidy_request _ drop s hs

theorem tidy_ljForceEarlyReturnTodo : Tidy jvm (ljForceEarlyReturnTodo : NativeProg Ref _) := fun _ _ _ =>
  ⟨nofun, fun never => nomatch never⟩

theorem tidy_ljCreateRawMonitor : Tidy jvm (ljCreateRawMonitor e args) := by
  intro drop s hs
  refine meets_check (fun _ => hs.dropped) fun name => meets_api nofun ?_
  rintro r t rfl
  exact meets_jvmti hs fun _ => hs

theorem tidy_monitorRequest {r : Ref → Request Ref} : Tidy jvm (monitorRequest args r) := fun drop s hs =>
  meets_check (fun _ => hs.dropped) fun _ => tidy_request _ drop s hs

theorem tidy_ljRawMonitorWait : Tidy jvm (ljRawMonitorWait e args) := fun drop s hs =>
  meets_check (fun _ => hs.dropped) fun _ => meets_check (fun _ => hs.dropped) fun _ => tidy_request _ drop s hs

/-- The current thread is looked for before JVMTI is asked. -/
theorem meets_eventChange {currentThread : Option Ref} {on : Bool} {callback : LuaString}
    {f : Except String Unit → NativeProg Ref β} {Q : β → NativeState → Prop} {E : LuaError → NativeState → Prop}
    (hs : Holding drop [] s) (h : ∀ r t, Holding drop [] t → Meets jvm.interface (f r) t Q E) :
    Meets jvm.interface (eventChange currentThread on callback >>= f) s Q E := by
  unfold eventChange
  cases (slotOf callback).bind Slot.notification with
  | none => exact h _ s hs
  | some event =>
    refine meets_bind.mpr (meets_getCurrentJavaThread hs fun thread t ht => ⟨nofun, ?_⟩)
    rintro r u rfl
    exact h r u ht

theorem tidy_ljSetJvmtiCallback {currentThread : Option Ref} : Tidy jvm (ljSetJvmtiCallback e currentThread args) := by
  intro drop s hs
  refine meets_check (fun _ => hs.dropped) fun callback => meets_check (fun _ => hs.dropped) fun _ => ?_
  refine meets_eventChange hs fun r t ht => meets_jvmti ht fun _ => ?_
  cases slotOf callback with
  | none => exact ht.dropped
  | some slot => exact tidy_request _ drop t ht

/-- Arguments of `lj_clear_jvmti_callback`: only a callback of `names` is cleared. -/
def ClearsFrom (names : Set LuaString) (e : MarshalEnv) (args : List (CValue Ref)) : Prop :=
  ∀ name, checkString e args[0]? = .ok name → name ∈ names

/-- What C sees as one of `names` is the name of a callback. -/
def KnownCallbacks (names : Set LuaString) : Prop := ∀ s, cString s ∈ names → (slotOf (cString s)).isSome = true

theorem exists_of_checkString {v : Option (CValue Ref)} {name : LuaString} (h : checkString e v = .ok name) :
    ∃ s, name = cString s := by
  unfold checkString at h
  split at h
  · exact ⟨_, (Except.ok.inj h).symm⟩
  · exact ⟨_, (Except.ok.inj h).symm⟩
  · cases h

theorem tidy_ljClearJvmtiCallback (hnames : KnownCallbacks names) (hargs : ClearsFrom names e args)
    {currentThread : Option Ref} : Tidy jvm (ljClearJvmtiCallback e currentThread args) := by
  intro drop s hs
  refine meets_bind.mpr (Meets.ofExcept (fun callback hcallback => ?_) fun _ _ => hs.dropped)
  refine meets_eventChange hs fun _ t ht => ?_
  obtain ⟨text, rfl⟩ := exists_of_checkString hcallback
  obtain ⟨slot, hslot⟩ := Option.isSome_iff_exists.mp (hnames text (hargs _ hcallback))
  rw [hslot]
  exact tidy_request _ drop t ht

/-- The failures after which the C functions do not keep to the interface do not occur. -/
structure Jvm.Reliable (jvm : Jvm Ref) (ms : Set Ref) : Prop where
  newString : ¬ jvm.newStringFails
  stringChars : ¬ jvm.stringCharsFail
  lineTable : ¬ jvm.lineTableFails
  returnsObject : ∀ m ∈ ms, jvm.returnsObject m

/-- A function is called for a string with methods of `ms` only, and to clear a callback with one of `names` only. -/
structure CallsWithin (ms : Set Ref) (names : Set LuaString) (e : MarshalEnv) (function : String)
    (args : List (CValue Ref)) : Prop where
  strings : function = "lj_call_method" → StringsFrom ms e args
  clears : function = "lj_clear_jvmti_callback" → ClearsFrom names e args

/-- Every registered function is tidy. -/
theorem tidy_nativeFunctions (h : jvm.Reliable ms) (hnames : KnownCallbacks names) {currentThread : Option Ref} :
    ∀ f ∈ nativeFunctions e, CallsWithin ms names e f.1 args → Tidy jvm (f.2 currentThread args) := by
  unfold nativeFunctions
  simp only [List.forall_mem_cons]
  refine ⟨fun _ => tidy_ljFindClass, fun _ => tidy_ljGetClassFields, fun _ => tidy_ljGetClassMethods,
    fun _ => tidy_ljGetSourceFilename, fun _ => tidy_ljGetLoadedClasses, fun _ => tidy_ljGetClassInstances,
    fun _ => tidy_ljGetFieldId, fun _ => tidy_ljGetFieldName, fun _ => tidy_ljGetFieldDeclaringClass,
    fun _ => tidy_ljGetFieldModifiers, fun _ => tidy_ljForceEarlyReturnObject, fun _ => tidy_ljForceEarlyReturnInt,
    fun _ => tidy_ljForceEarlyReturnTodo, fun _ => tidy_ljForceEarlyReturnTodo, fun _ => tidy_ljForceEarlyReturnTodo,
    fun _ => tidy_ljForceEarlyReturnVoid, fun _ => tidy_ljGetMethodId, fun _ => tidy_ljGetLocalVariableTable,
    fun _ => tidy_ljGetLineNumberTable h.lineTable, fun _ => tidy_ljGetMethodName,
    fun _ => tidy_ljGetMethodDeclaringClass, fun _ => tidy_ljGetMethodModifiers,
    fun _ => tidy_ljCreateRawMonitor, fun _ => tidy_monitorRequest, fun _ => tidy_monitorRequest,
    fun _ => tidy_monitorRequest, fun _ => tidy_ljRawMonitorWait, fun _ => tidy_monitorRequest,
    fun _ => tidy_monitorRequest, fun _ => tidy_ljGetFrameCount,
    fun _ => tidy_ljGetStackFrame, fun _ => tidy_ljSetFieldAccessWatch, fun _ => tidy_ljSetFieldModificationWatch,
    fun _ => tidy_ljSetBreakpoint, fun _ => tidy_ljClearBreakpoint, fun _ => tidy_ljGetLocalVariable,
    fun hargs => tidy_ljCallMethod h.newString h.stringChars h.returnsObject (hargs.strings rfl),
    fun _ => tidy_ljToString h.stringChars, fun _ => tidy_ljGetField,
    fun _ => tidy_ljGetCurrentThread, fun _ => tidy_ljGetAllThreads, fun _ => tidy_ljGetArrayLength,
    fun _ => tidy_ljGetArrayElement, fun _ => tidy_ljSetArrayElement, fun _ => tidy_ljNewGlobalRef,
    fun _ => tidy_ljDeleteGlobalRef, fun _ => tidy_ljSetJvmtiCallback,
    fun hargs => tidy_ljClearJvmtiCallback hnames (hargs.clears rfl), fun _ h => absurd h List.not_mem_nil⟩

end Functions

/-! ## Sessions -/

section Sessions

variable {jvm : Jvm Ref} {ms : Set Ref} {names : Set LuaString} {drop : List ℕ} {s : NativeState} {e : MarshalEnv}

def NativeCall.Within (c : NativeCall Ref) (ms : Set Ref) (names : Set LuaString) (e : MarshalEnv) : Prop :=
  CallsWithin ms names e c.function c.args

theorem tidy_run (h : jvm.Reliable ms) (hnames : KnownCallbacks names) {c : NativeCall Ref}
    (hc : c.Within ms names e) : Tidy jvm (c.run e) := by
  unfold NativeCall.run
  cases hf : (nativeFunctions e).lookup c.function with
  | none => exact fun _ _ hs => hs.dropped
  | some f =>
    obtain ⟨l, l', hsplit, -⟩ := List.lookup_eq_some_iff.mp hf
    have hmem : (c.function, f) ∈ nativeFunctions e := by
      rw [hsplit]
      exact List.mem_append_right l List.mem_cons_self
    exact tidy_nativeFunctions h hnames _ hmem hc

/-- A call has ended with an error. -/
def isError {α : Type} : Except LuaError α → Bool
  | .ok _ => false
  | .error _ => true

/-- What a session leaves: each error has dropped one block at most. -/
theorem meets_session (h : jvm.Reliable ms) (hnames : KnownCallbacks names) {cs : List (NativeCall Ref)}
    (hcs : ∀ c ∈ cs, c.Within ms names e) (hs : Holding drop [] s) : Meets jvm.interface (session e cs) s
      (fun rs t => ∃ ds, ds.length ≤ rs.countP isError ∧ Holding (ds ++ drop) [] t) fun _ _ => True := by
  induction cs generalizing drop s with
  | nil => exact ⟨[], Nat.le_refl 0, hs⟩
  | cons c cs ih =>
    obtain ⟨hc, hcs⟩ := List.forall_mem_cons.mp hcs
    refine meets_bind.mpr (meets_attempt.mpr ((tidy_run h hnames hc drop s hs).mono ?_ ?_))
    · intro vs t ht
      refine meets_bind.mpr ((ih hcs ht).mono ?_ fun _ _ _ => trivial)
      rintro rs u ⟨ds, hlen, hu⟩
      exact ⟨ds, hlen.trans (List.countP_cons_of_neg Bool.false_ne_true).ge, hu⟩
    · rintro err t ⟨ds, hds, ht⟩
      refine meets_bind.mpr ((ih hcs ht).mono ?_ fun _ _ _ => trivial)
      rintro rs u ⟨ds', hlen, hu⟩
      refine ⟨ds' ++ ds, ?_, by rw [List.append_assoc]; exact hu⟩
      rw [List.countP_cons_of_pos rfl, List.length_append]
      omega

theorem holding_init : Holding [] [] .init := ⟨rfl, .empty⟩

/-- What a session that is safe meets in its first call. -/
theorem meets_of_safe {c : NativeCall Ref} {cs : List (NativeCall Ref)}
    (hsafe : Safe jvm.interface (session e (c :: cs)) .init) :
    ∃ Q E, Meets jvm.interface (c.run e) .init Q E ∧
      ∀ vs s, Q vs s → Meets jvm.interface (session e cs) s (fun _ _ => True) fun _ _ => True :=
  ⟨_, _, meets_attempt.mp (meets_bind.mp (safe_iff.mp hsafe)), fun _ _ h =>
    (meets_bind.mp h).mono (fun _ _ _ => trivial) fun _ _ _ => trivial⟩

/-- `lj_call_method` for a void method with one String. -/
def callWithString (o m : Ref) : NativeCall Ref :=
  ⟨"lj_call_method", none, [.jobject o, .jmethodId m, .boolean false, .string ['V'], .number (.finite (1 : ℤ)),
    .string "STR".toList, .string []]⟩

theorem callWithString_within (o m : Ref) : (callWithString o m).Within ms names e := by
  refine ⟨?_, fun h => absurd (show "lj_call_method" = "lj_clear_jvmti_callback" from h) (by decide)⟩
  rintro - m' ret - hret ⟨htag, -⟩
  obtain rfl : ret = ['V'] := (Except.ok.inj hret).symm
  exact absurd htag (by decide)

/-- The method is called while the OutOfMemoryError of NewStringUTF is pending. -/
theorem not_safe_of_newStringFails (hfails : jvm.newStringFails) (o m : Ref) :
    ¬ Safe jvm.interface (session e [callWithString o m]) .init := by
  intro hsafe
  obtain ⟨Q, E, h, -⟩ := meets_of_safe hsafe
  have hcast : e.cast.cast (.finite (1 : ℤ)) = 1 := e.cast.cast_int (by decide) (by decide)
  have hname := h.2 (.ok ([], 0)) (NativeState.init.alloc) ⟨rfl, rfl⟩
  rw [hcast] at hname
  have hstring := hname.2 none ((NativeState.init.alloc).throw true) ⟨rfl, fun _ => hfails⟩
  have hpending := hstring.1 rfl
  cases hpending

/-- Nothing clears the exception that GetStringUTFChars has thrown. -/
theorem not_safe_of_stringCharsFail (hfails : jvm.stringCharsFail) (o : Ref) :
    ¬ Safe jvm.interface (session e [⟨"lj_toString", none, [.jobject o]⟩, ⟨"lj_get_array_length", none, [.jobject o]⟩])
      .init := by
  intro hsafe
  obtain ⟨Q, E, h, hnext⟩ := meets_of_safe hsafe
  have hclass := (h.2 (some o) .init rfl).2 false .init ⟨rfl, rfl⟩
  have hmethod := (hclass.2 (some o) .init rfl).2 false .init ⟨rfl, rfl⟩
  have hcall := (hmethod.2 (.reference (some o)) .init ⟨trivial, nofun, false, rfl⟩).2 false .init ⟨rfl, rfl⟩
  have hchars := hcall.2 none (NativeState.init.throw true) ⟨hfails, true, rfl⟩
  have hpending := (hnext _ _ hchars).1 rfl
  cases hpending

/-- `lj_get_line_number_table` reads variables that are not set. -/
theorem not_safe_of_lineTableFails (hfails : jvm.lineTableFails) (m : Ref) :
    ¬ Safe jvm.interface (session e [⟨"lj_get_line_number_table", none, [.jmethodId m]⟩]) .init := by
  intro hsafe
  obtain ⟨Q, E, h, -⟩ := meets_of_safe hsafe
  exact (h.2 (.error "JVMTI_ERROR_INVALID_METHODID") .init ⟨rfl, fun _ _ _ _ => hfails⟩).1

/-- `lj_call_method` for a method without parameters that is called for a string. -/
def callForString (o m : Ref) : NativeCall Ref :=
  ⟨"lj_call_method", none, [.jobject o, .jmethodId m, .boolean false, .string "STR".toList, .number (.finite (0 : ℤ))]⟩

theorem callForString_within {o m : Ref} (hm : m ∈ ms) : (callForString o m).Within ms names e := by
  refine ⟨?_, fun h => absurd (show "lj_call_method" = "lj_clear_jvmti_callback" from h) (by decide)⟩
  rintro - m' ret hm' - -
  obtain rfl := Except.ok.inj hm'
  exact hm

/-- GetStringUTFChars is called without a string. -/
theorem not_safe_of_null {m : Ref} (hnull : ¬ jvm.returnsObject m) (o : Ref) :
    ¬ Safe jvm.interface (session e [callForString o m]) .init := by
  intro hsafe
  obtain ⟨Q, E, h, -⟩ := meets_of_safe hsafe
  have hcast : e.cast.cast (.finite (0 : ℤ)) = 0 := e.cast.cast_int (by decide) (by decide)
  have hname := h.2 (.ok ([], 0)) (NativeState.init.alloc) ⟨rfl, rfl⟩
  rw [hcast] at hname
  have hcall := hname.2 (.reference none) (NativeState.init.alloc) ⟨trivial, fun hm => absurd hm hnull, false, rfl⟩
  have hstring := (hcall.2 false (NativeState.init.alloc) ⟨rfl, rfl⟩).1.2
  cases hstring

/-- `lj_clear_jvmti_callback`, after the first callback. -/
def clearCallback (thread : Ref) (s : LuaString) : NativeCall Ref :=
  ⟨"lj_clear_jvmti_callback", some thread, [.string s]⟩

theorem clearCallback_within {thread : Ref} {s : LuaString} (hs : cString s ∈ names) :
    (clearCallback thread s).Within ms names e := by
  refine ⟨fun h => absurd (show "lj_clear_jvmti_callback" = "lj_call_method" from h) (by decide),
    fun _ name hname => ?_⟩
  obtain rfl := Except.ok.inj hname
  exact hs

/-- For any other name the C code stores through NULL. -/
theorem not_safe_of_unknown {s : LuaString} (hs : slotOf (cString s) = none) (thread : Ref) :
    ¬ Safe jvm.interface (session e [clearCallback thread s]) .init := by
  intro hsafe
  obtain ⟨Q, E, h, -⟩ := meets_of_safe hsafe
  have hchange : (eventChange (some thread) false (cString s) : NativeProg Ref _) = pure (.ok ()) := by
    unfold eventChange
    rw [hs]
    rfl
  have hrun : Meets jvm.interface (ljClearJvmtiCallback e (some thread) [.string s]) _ Q E := h
  rw [ljClearJvmtiCallback] at hrun
  have hrest : Meets jvm.interface (eventChange (some thread) false (cString s) >>= _) _ Q E := hrun
  rw [hchange] at hrest
  simp only [hs] at hrest
  exact hrest.1

/-- A JVM without failures. -/
def soundJvm : Jvm ℕ := ⟨fun _ => True, False, False, False⟩

end Sessions

end Native

end YellowTree
