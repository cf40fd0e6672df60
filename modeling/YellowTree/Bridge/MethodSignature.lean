import YellowTree.Bridge.ReturnValues

/-!
# YellowTree.Bridge.MethodSignature — method signatures taken apart and put together

A signature is cut at parentheses in two places: `parse_complete_method_signature` matches greedily each time,
`jmethod_id.create` takes the arguments by a greedy match and the return type by a leftmost one.

* `parse_complete`: the parts of a complete signature are found again, whatever the class and the method are called.
* `splits_iff`: the two matches of `jmethod_id.create` meet at one parenthesis exactly when the descriptor has no other.
-/

namespace YellowTree

/-! ## Complete signatures -/

section Complete

/-- `c .. "." .. m .. "(" .. a .. ")" .. r`. -/
def MethodSig.complete (s : MethodSig) : LuaString :=
  s.className ++ '.' :: (s.methodName ++ '(' :: (s.args ++ ')' :: s.ret))

/-- The method name has no dot, the two descriptors have none of the delimiters. -/
structure MethodSig.Delimited (s : MethodSig) : Prop where
  methodName : '.' ∉ s.methodName
  args : '.' ∉ s.args ∧ '(' ∉ s.args ∧ ')' ∉ s.args
  ret : '.' ∉ s.ret ∧ '(' ∉ s.ret ∧ ')' ∉ s.ret

/-- A complete signature is parsed back into its parts. -/
theorem parse_complete (s : MethodSig) (h : s.Delimited) : parseCompleteMethodSignature s.complete = some s := by
  obtain ⟨hm, ⟨hadot, haopen, -⟩, hrdot, hropen, hrclose⟩ := h
  have hdot : '.' ∉ s.methodName ++ '(' :: (s.args ++ ')' :: s.ret) := by simp [hm, hadot, hrdot]
  have hopen : '(' ∉ s.args ++ ')' :: s.ret := by simp [haopen, hropen]
  exact parseCompleteMethodSignature_append hdot hopen hrclose

/-- Also with parentheses in the names, and without arguments. -/
theorem parenthesized_parse_complete :
    MethodSig.Delimited ⟨"a.b(c)/D".toList, "m(x)".toList, [], ['V']⟩ ∧
      parseCompleteMethodSignature "a.b(c)/D.m(x)()V".toList =
        some ⟨"a.b(c)/D".toList, "m(x)".toList, [], ['V']⟩ := by
  have h : MethodSig.Delimited ⟨"a.b(c)/D".toList, "m(x)".toList, [], ['V']⟩ :=
    ⟨by decide, by decide, by decide⟩
  exact ⟨h, parse_complete _ h⟩

end Complete

/-! ## Descriptors -/

section Splits

/-- `args` and `ret` are the two parts of the descriptor, and `lj_get_method_id` builds it from them again. -/
structure SplitsRight (m : MethodInfo) : Prop where
  args : m.args = m.params.flatMap FieldType.descriptor
  ret : m.parsedRet = retText m.ret
  rebuilt : '(' :: (m.args ++ ')' :: m.parsedRet) = m.sig

variable {m : MethodInfo}

/-- With a parenthesis in the return type the greedy match goes too far. -/
theorem args_ne_of_mem (h : ')' ∈ retText m.ret) : m.args ≠ m.params.flatMap FieldType.descriptor := by
  obtain ⟨u, v, huv, hv⟩ := exists_last_split h
  have hlast : ')' :: retText m.ret = (')' :: u) ++ ')' :: v := by rw [huv, List.cons_append]
  rw [m.args_eq_last hv hlast]
  simp

/-- With one in a parameter the leftmost match begins too early. -/
theorem parsedRet_ne_of_mem (h : ')' ∈ m.params.flatMap FieldType.descriptor) : m.parsedRet ≠ retText m.ret := by
  obtain ⟨u, v, huv, hu⟩ := List.eq_append_cons_of_mem h
  rw [parsedRet_of_split hu huv]
  intro heq
  have hlength := congrArg List.length heq
  simp at hlength
  omega

/-- Splitting a descriptor is right exactly when no class in it has a closing parenthesis in its name. -/
theorem splits_iff (m : MethodInfo) :
    SplitsRight m ↔ ')' ∉ m.params.flatMap FieldType.descriptor ∧ ')' ∉ retText m.ret := by
  constructor
  · intro h
    exact ⟨fun hmem => parsedRet_ne_of_mem hmem h.ret, fun hmem => args_ne_of_mem hmem h.args⟩
  · rintro ⟨hparams, hret⟩
    have hargs := m.args_eq hret
    have hparsed := parsedRet_of_notMem hparams
    exact ⟨hargs, hparsed, by rw [hargs, hparsed, MethodInfo.sig]⟩

/-- `()LA)B;` is cut at both parentheses. -/
theorem parenthesis_not_splits :
    ¬ SplitsRight ⟨"get".toList, [], some (.cls ⟨"A)B".toList, by simp⟩), false, none⟩ := by
  intro h
  refine args_ne_of_mem ?_ h.args
  decide

end Splits

end YellowTree
