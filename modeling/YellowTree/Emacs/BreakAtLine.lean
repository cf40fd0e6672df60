import YellowTree.Debugger.Frame
import YellowTree.Emacs.JavaNames
import YellowTree.Lib.ListSplit
import YellowTree.Lua.Lexer

/-!
# YellowTree.Emacs.BreakAtLine — `gud-yt-break-at-line`

Emacs sends the debugger a command for the method and the line at point.  The types of the method are encoded from
their source text, the class from the names around point.

* `encodeJavaType_cls`: the encoding of a class type that follows the naming conventions is its descriptor.
* `parse_signature`: the debugger splits the signature at the right places.
* `not_sendsCall`: the line is no call of `bp`.
-/

namespace YellowTree

open ListSplit

/-! ## Java methods -/

section Methods

/-- A class type: the package, the classes around it, and its own name. -/
structure JavaClass where
  pkg : List JavaIdent
  outer : List JavaIdent
  simple : JavaIdent

inductive JavaType where
  | prim (p : PrimType)
  | cls (c : JavaClass)
  | arr (elem : JavaType)

/-- A method; `ret` is `none` for void. -/
structure JavaMethod where
  cls : JavaClass
  name : JavaIdent
  params : List JavaType
  ret : Option JavaType

/-- `java.util.Map.Entry`. -/
def JavaClass.sourceText (c : JavaClass) : LuaString :=
  terminated '.' c.pkg ++ (terminated '.' c.outer ++ c.simple.text)

/-- `java/util/Map$Entry`. -/
def JavaClass.internalName (c : JavaClass) : LuaString :=
  terminated '/' c.pkg ++ (terminated '$' c.outer ++ c.simple.text)

def PrimType.sourceText : PrimType → LuaString
  | .Z => "boolean".toList | .B => "byte".toList | .C => "char".toList | .S => "short".toList
  | .I => "int".toList | .J => "long".toList | .F => "float".toList | .D => "double".toList

def JavaType.sourceText : JavaType → LuaString
  | .prim p => p.sourceText
  | .cls c => c.sourceText
  | .arr t => t.sourceText ++ "[]".toList

/-- The source text of a return type. -/
def returnText : Option JavaType → LuaString
  | none => "void".toList
  | some t => t.sourceText

theorem JavaClass.internalName_legal (c : JavaClass) :
    c.internalName ≠ [] ∧ ∀ d ∈ c.internalName, d ≠ ';' ∧ d ≠ '.' ∧ d ≠ '[' := by
  have hne : c.internalName ≠ [] := by
    intro hnil
    exact c.simple.legal.1 (List.append_eq_nil_iff.mp (List.append_eq_nil_iff.mp hnil).2).2
  have hident : ∀ {d : Char}, identChar d = true → d ≠ ';' ∧ d ≠ '.' ∧ d ≠ '[' := fun hd =>
    ⟨identChar_ne hd (by decide), identChar_ne hd (by decide), identChar_ne hd (by decide)⟩
  refine ⟨hne, fun d hd => ?_⟩
  rcases List.mem_append.mp hd with hd | hd
  · rcases mem_terminated hd with hd | rfl
    · exact hident hd
    · decide
  · rcases List.mem_append.mp hd with hd | hd
    · rcases mem_terminated hd with hd | rfl
      · exact hident hd
      · decide
    · exact hident (c.simple.legal.2 d hd)

/-- The type for the JVM. -/
def JavaType.fieldType : JavaType → FieldType
  | .prim p => .prim p
  | .cls c => .cls ⟨c.internalName, c.internalName_legal⟩
  | .arr t => .arr t.fieldType

/-- What the debugger should read. -/
def JavaMethod.methodSig (m : JavaMethod) : MethodSig where
  className := m.cls.internalName
  methodName := m.name.text
  args := m.params.flatMap fun t => t.fieldType.descriptor
  ret := retText (m.ret.map JavaType.fieldType)

end Methods

/-! ## Emacs -/

section Emacs

def javaPrimitiveTypes : List (LuaString × LuaString) :=
  [("boolean".toList, ['Z']), ("byte".toList, ['B']), ("char".toList, ['C']), ("short".toList, ['S']),
    ("int".toList, ['I']), ("long".toList, ['J']), ("float".toList, ['F']), ("double".toList, ['D']),
    ("void".toList, ['V'])]

/-- `(string-match "^[A-Z]" p)`. -/
def startsUpper (p : LuaString) : Bool := (p.head?.map Char.isUpper).getD false

/-- The loop of `java-class-name-to-internal-name`. -/
def internalNameLoop (sep : LuaString) : List LuaString → LuaString
  | [] => []
  | [p] => p
  | p :: pieces =>
    let sep := if startsUpper p then ['$'] else sep
    p ++ sep ++ internalNameLoop sep pieces

def javaClassNameToInternalName (cls : LuaString) : LuaString := internalNameLoop ['/'] (cls.splitOn '.')

def encodeJavaType (type : LuaString) : LuaString :=
  match javaPrimitiveTypes.lookup type with
  | some nativeTypeCode => nativeTypeCode
  | none => 'L' :: (javaClassNameToInternalName type ++ [';'])

/-- `current-java-class`: the package, and the classes around point with `$` between them. -/
def currentJavaClass (c : JavaClass) : LuaString :=
  terminated '.' c.pkg ++ (terminated '$' c.outer ++ c.simple.text)

def substCharInString (a b : Char) (s : LuaString) : LuaString := s.map fun c => if c = a then b else c

/-- `current-internal-method-signature`. -/
def currentInternalMethodSignature (m : JavaMethod) : LuaString :=
  let cls := substCharInString '.' '/' (currentJavaClass m.cls)
  let rettype := encodeJavaType (returnText m.ret)
  let args := m.params.flatMap fun t => encodeJavaType t.sourceText
  cls ++ '.' :: (m.name.text ++ '(' :: (args ++ ')' :: rettype))

/-- `gud-yt-break-at-line`: what is sent to the debugger. -/
def gudYtBreakAtLine (m : JavaMethod) (line : ℕ) : LuaString :=
  "bp(".toList ++ (currentInternalMethodSignature m ++ ',' :: (intText line ++ ['\n']))

end Emacs

/-! ## The debugger -/

section Command

/-- `dbgio:read_line`. -/
def readLine (s : LuaString) : LuaString := s.takeWhile (· != '\n')

/-- The chunk that `start_cmd` loads for a line. -/
def commandChunk (cmd : LuaString) : LuaString :=
  if cmd.take 1 = ['='] then "return ".toList ++ cmd.drop 1 else cmd

variable {Class Ref : Type}

/-- The tokens of a call of `bp` with two arguments. -/
def IsBpCall (arg1 arg2 : List LuaToken) (ts : List LuaToken) : Prop :=
  ∃ semicolons, ts = [⟨.name, "bp".toList⟩, ⟨.sym, ['(']⟩] ++ arg1 ++ [⟨.sym, [',']⟩] ++ arg2 ++ [⟨.sym, [')']⟩] ++
    semicolons ∧ ∀ t ∈ semicolons, t = ⟨.sym, [';']⟩

/-- The tokens of `bp("Main.run()V",12)`, with the quotes and the parenthesis. -/
def quotedCall : List LuaToken := [⟨.name, "bp".toList⟩, ⟨.sym, ['(']⟩, ⟨.str, "\"Main.run()V\"".toList⟩,
  ⟨.sym, [',']⟩, ⟨.numeral, "12".toList⟩, ⟨.sym, [')']⟩]

example : tokens "bp(\"Main.run()V\",12)".toList = some quotedCall := by decide +kernel

example : IsBpCall [⟨.str, "\"Main.run()V\"".toList⟩] [⟨.numeral, "12".toList⟩] quotedCall :=
  ⟨[], rfl, fun t ht => by cases ht⟩

/-- The line that is sent is a call of `bp` with the signature of the method and the line; `eval` says which values
expressions have. -/
def SendsCall (eval : List LuaToken → Option (Value Class Ref)) (m : JavaMethod) (line : ℕ) : Prop :=
  ∃ ts arg1 arg2 s, tokens (commandChunk (readLine (gudYtBreakAtLine m line))) = some ts ∧ IsBpCall arg1 arg2 ts ∧
    eval arg1 = some (.string s) ∧ parseCompleteMethodSignature s = some m.methodSig ∧
    eval arg2 = some (.number (.finite line))

end Command

/-! ## What is sent -/

section Sent

variable {Class Ref : Type}

/-- A character of the source text of a type. -/
def typeChar (c : Char) : Bool := identChar c || c ∈ ".[]".toList

theorem typeChar_prim (p : PrimType) : ∀ c ∈ p.sourceText, typeChar c = true := by
  have hall : p.sourceText.Forall fun c => typeChar c = true := by cases p <;> decide
  exact List.forall_iff_forall_mem.mp hall

theorem typeChar_of_identChar {c : Char} (hc : identChar c = true) : typeChar c = true := by
  unfold typeChar
  rw [hc, Bool.true_or]

theorem typeChar_sourceText (t : JavaType) : ∀ c ∈ t.sourceText, typeChar c = true := by
  induction t with
  | prim p => exact typeChar_prim p
  | cls c =>
    have hdot : ∀ {names : List JavaIdent}, ∀ d ∈ terminated '.' names, typeChar d = true := by
      intro names d hd
      rcases mem_terminated hd with hd | rfl
      · exact typeChar_of_identChar hd
      · decide
    intro d hd
    rcases List.mem_append.mp hd with hd | hd
    · exact hdot d hd
    · rcases List.mem_append.mp hd with hd | hd
      · exact hdot d hd
      · exact typeChar_of_identChar (c.simple.legal.2 d hd)
  | arr t ih =>
    intro d hd
    rcases List.mem_append.mp hd with hd | hd
    · exact ih d hd
    · have hbrackets : "[]".toList.Forall fun c => typeChar c = true := by decide
      exact List.forall_iff_forall_mem.mp hbrackets d hd

theorem typeChar_returnText : ∀ (ret : Option JavaType), ∀ c ∈ returnText ret, typeChar c = true
  | none => List.forall_iff_forall_mem.mp (by decide)
  | some t => typeChar_sourceText t

/-- The characters of an internal name are those of the pieces, and the separators. -/
theorem mem_internalNameLoop {d : Char} : ∀ {pieces : List LuaString} {sep : LuaString},
    d ∈ internalNameLoop sep pieces → d ∈ sep ∨ d = '$' ∨ ∃ p ∈ pieces, d ∈ p
  | [], sep, hd => by cases hd
  | [p], sep, hd => Or.inr (Or.inr ⟨p, List.mem_cons_self, hd⟩)
  | p :: q :: pieces, sep, hd => by
    unfold internalNameLoop at hd
    dsimp only at hd
    have hsep : ∀ {c}, c ∈ (if startsUpper p then ['$'] else sep) → c ∈ sep ∨ c = '$' := by
      intro c hc
      split_ifs at hc
      · exact Or.inr (List.mem_singleton.mp hc)
      · exact Or.inl hc
    have hback : d ∈ (if startsUpper p then ['$'] else sep) →
        d ∈ sep ∨ d = '$' ∨ ∃ p' ∈ p :: q :: pieces, d ∈ p' := fun hc =>
      (hsep hc).imp_right Or.inl
    rcases List.mem_append.mp hd with hd | hd
    · rcases List.mem_append.mp hd with hd | hd
      · exact Or.inr (Or.inr ⟨p, List.mem_cons_self, hd⟩)
      · exact hback hd
    · rcases mem_internalNameLoop hd with hd | hd | ⟨p', hp', hd⟩
      · exact hback hd
      · exact Or.inr (Or.inl hd)
      · exact Or.inr (Or.inr ⟨p', List.mem_cons_of_mem p hp', hd⟩)

theorem mem_javaClassNameToInternalName {d : Char} {s : LuaString} (hd : d ∈ javaClassNameToInternalName s) :
    d = '/' ∨ d = '$' ∨ d ∈ s ∧ d ≠ '.' := by
  rcases mem_internalNameLoop hd with hd | hd | ⟨p, hp, hd⟩
  · exact Or.inl (List.mem_singleton.mp hd)
  · exact Or.inr (Or.inl hd)
  · exact Or.inr (Or.inr (mem_splitOn hp d hd))

/-- The encoding of a type has no parentheses or dots that its source text does not have. -/
theorem mem_encodeJavaType {d : Char} {s : LuaString} (hd : d ∈ encodeJavaType s) :
    d ∈ "ZBCSIJFDVL/$;".toList ∨ d ∈ s ∧ d ≠ '.' := by
  unfold encodeJavaType at hd
  split at hd
  case h_1 code hcode =>
    have hcodes : ∀ e ∈ javaPrimitiveTypes, e.2.Forall fun c => c ∈ "ZBCSIJFDVL/$;".toList := by decide
    obtain ⟨l1, l2, hsplit, -⟩ := List.lookup_eq_some_iff.mp hcode
    exact Or.inl (List.forall_iff_forall_mem.mp (hcodes (s, code) (by rw [hsplit]; simp)) d hd)
  case h_2 =>
    rcases List.mem_cons.mp hd with rfl | hd
    · exact Or.inl (by decide)
    · rcases List.mem_append.mp hd with hd | hd
      · rcases mem_javaClassNameToInternalName hd with rfl | rfl | hd
        · exact Or.inl (by decide)
        · exact Or.inl (by decide)
        · exact Or.inr hd
      · rw [List.mem_singleton.mp hd]
        exact Or.inl (by decide)

theorem notMem_encodeJavaType {d : Char} {s : LuaString} (hs : ∀ c ∈ s, typeChar c = true)
    (hcode : d ∉ "ZBCSIJFDVL/$;".toList) (htype : typeChar d = false ∨ d = '.') : d ∉ encodeJavaType s := by
  intro hd
  rcases mem_encodeJavaType hd with hd | ⟨hd, hdot⟩
  · exact hcode hd
  · rcases htype with htype | rfl
    · rw [hs d hd] at htype
      cases htype
    · exact hdot rfl

/-- The encoding of the parameters. -/
def encodedParams (m : JavaMethod) : LuaString := m.params.flatMap fun t => encodeJavaType t.sourceText

theorem notMem_encodedParams {m : JavaMethod} {d : Char} (hcode : d ∉ "ZBCSIJFDVL/$;".toList)
    (htype : typeChar d = false ∨ d = '.') : d ∉ encodedParams m := by
  intro hd
  obtain ⟨t, -, ht⟩ := List.mem_flatMap.mp hd
  exact notMem_encodeJavaType (typeChar_sourceText t) hcode htype ht

theorem notMem_encodedReturn {m : JavaMethod} {d : Char} (hcode : d ∉ "ZBCSIJFDVL/$;".toList)
    (htype : typeChar d = false ∨ d = '.') : d ∉ encodeJavaType (returnText m.ret) :=
  notMem_encodeJavaType (typeChar_returnText m.ret) hcode htype

theorem substCharInString_currentJavaClass (c : JavaClass) :
    substCharInString '.' '/' (currentJavaClass c) = c.internalName := by
  have hid : ∀ d, identChar d = true → (if d = '.' then '/' else d) = d := fun d hd =>
    if_neg (identChar_ne hd (by decide))
  unfold substCharInString currentJavaClass JavaClass.internalName
  rw [List.map_append, List.map_append, map_terminated hid, map_terminated hid, c.simple.map_text hid]
  rfl

theorem signature_eq (m : JavaMethod) : currentInternalMethodSignature m =
    m.cls.internalName ++ '.' ::
      (m.name.text ++ '(' :: (encodedParams m ++ ')' :: encodeJavaType (returnText m.ret))) := by
  unfold currentInternalMethodSignature
  rw [substCharInString_currentJavaClass]
  rfl

/-- The debugger splits the signature behind the class, the name and the parameters. -/
theorem parse_signature (m : JavaMethod) : parseCompleteMethodSignature (currentInternalMethodSignature m) =
    some ⟨m.cls.internalName, m.name.text, encodedParams m, encodeJavaType (returnText m.ret)⟩ := by
  have hdot : '.' ∉ m.name.text ++ '(' :: (encodedParams m ++ ')' :: encodeJavaType (returnText m.ret)) := by
    have hname : '.' ∉ m.name.text := m.name.not_mem (by decide)
    have hparams : '.' ∉ encodedParams m := notMem_encodedParams (by decide) (Or.inr rfl)
    have hret : '.' ∉ encodeJavaType (returnText m.ret) := notMem_encodedReturn (by decide) (Or.inr rfl)
    simp [hname, hparams, hret]
  have hparen : '(' ∉ encodedParams m ++ ')' :: encodeJavaType (returnText m.ret) := by
    have hparams : '(' ∉ encodedParams m := notMem_encodedParams (by decide) (Or.inl (by decide))
    have hret : '(' ∉ encodeJavaType (returnText m.ret) := notMem_encodedReturn (by decide) (Or.inl (by decide))
    simp [hparams, hret]
  have hclose : ')' ∉ encodeJavaType (returnText m.ret) := notMem_encodedReturn (by decide) (Or.inl (by decide))
  rw [signature_eq]
  exact parseCompleteMethodSignature_append hdot hparen hclose

/-! ### Types that are encoded right -/

/-- Package names begin with a lower case letter, class names with an upper case letter. -/
structure JavaClass.Conventional (c : JavaClass) : Prop where
  pkg : ∀ p ∈ c.pkg, startsUpper p.text = false
  outer : ∀ o ∈ c.outer, startsUpper o.text = true
  simple : startsUpper c.simple.text = true

/-- No arrays. -/
def JavaType.Encodable : JavaType → Prop
  | .prim _ => True
  | .cls c => c.Conventional
  | .arr _ => False

theorem splitOn_terminated (s : LuaString) : ∀ names : List JavaIdent,
    (terminated '.' names ++ s).splitOn '.' = names.map JavaIdent.text ++ s.splitOn '.'
  | [] => rfl
  | i :: names => by
    rw [terminated_cons, List.append_assoc, List.cons_append,
      List.splitOn_append_cons_self_of_not_mem (i.not_mem (by decide)), splitOn_terminated s names]
    rfl

theorem internalNameLoop_cons {sep p : LuaString} {pieces : List LuaString} (hne : pieces ≠ []) :
    internalNameLoop sep (p :: pieces) = p ++ (if startsUpper p then ['$'] else sep) ++
      internalNameLoop (if startsUpper p then ['$'] else sep) pieces := by
  cases pieces with
  | nil => exact absurd rfl hne
  | cons q pieces => rfl

/-- Once the separator has changed it stays. -/
theorem internalNameLoop_dollar (s : LuaString) : ∀ names : List JavaIdent,
    internalNameLoop ['$'] (names.map JavaIdent.text ++ [s]) = terminated '$' names ++ s
  | [] => rfl
  | i :: names => by
    rw [List.map_cons, List.cons_append, internalNameLoop_cons (by simp), ite_self, internalNameLoop_dollar s names,
      terminated_cons]
    simp

/-- The separator changes behind the first class name. -/
theorem internalNameLoop_outer (s : LuaString) {outer : List JavaIdent}
    (houter : ∀ o ∈ outer, startsUpper o.text = true) :
    internalNameLoop ['/'] (outer.map JavaIdent.text ++ [s]) = terminated '$' outer ++ s := by
  cases outer with
  | nil => rfl
  | cons o outer =>
    rw [← internalNameLoop_dollar]
    rw [List.map_cons, List.cons_append, internalNameLoop_cons (by simp), internalNameLoop_cons (by simp),
      if_pos (houter o List.mem_cons_self), if_pos (houter o List.mem_cons_self)]

theorem internalNameLoop_pkg {pieces : List LuaString} (hne : pieces ≠ []) : ∀ {pkg : List JavaIdent},
    (∀ p ∈ pkg, startsUpper p.text = false) →
    internalNameLoop ['/'] (pkg.map JavaIdent.text ++ pieces) = terminated '/' pkg ++ internalNameLoop ['/'] pieces
  | [], _ => rfl
  | p :: pkg, hpkg => by
    obtain ⟨hp, hpkg⟩ := List.forall_mem_cons.mp hpkg
    rw [List.map_cons, List.cons_append, internalNameLoop_cons (by simp [hne]), hp, if_neg (by decide),
      internalNameLoop_pkg hne hpkg, terminated_cons]
    simp

/-- No primitive type has an upper case letter or a bracket in its name. -/
theorem lookup_primitive_eq_none {s : LuaString} {c : Char} (hc : c ∈ s) (hupper : c.isUpper = true ∨ c = '[') :
    javaPrimitiveTypes.lookup s = none := by
  cases hlookup : javaPrimitiveTypes.lookup s with
  | none => rfl
  | some code =>
    exfalso
    obtain ⟨l1, l2, hsplit, -⟩ := List.lookup_eq_some_iff.mp hlookup
    have hnames : ∀ e ∈ javaPrimitiveTypes, e.1.Forall fun c => c.isUpper = false ∧ c ≠ '[' := by decide
    obtain ⟨hlower, hbracket⟩ := List.forall_iff_forall_mem.mp (hnames (s, code) (by rw [hsplit]; simp)) c hc
    rcases hupper with hupper | hupper
    · rw [hlower] at hupper
      cases hupper
    · exact hbracket hupper

/-- A class type that follows the conventions is encoded as its descriptor. -/
theorem encodeJavaType_cls {c : JavaClass} (hc : c.Conventional) :
    encodeJavaType c.sourceText = (JavaType.cls c).fieldType.descriptor := by
  have hupper : ∃ d ∈ c.sourceText, d.isUpper = true := by
    have hsimple := hc.simple
    unfold startsUpper at hsimple
    cases htext : c.simple.text with
    | nil => exact absurd htext c.simple.legal.1
    | cons d ds =>
      rw [htext] at hsimple
      refine ⟨d, ?_, hsimple⟩
      unfold JavaClass.sourceText
      simp [htext]
  obtain ⟨d, hd, hupper⟩ := hupper
  have hname : javaClassNameToInternalName c.sourceText = c.internalName := by
    unfold javaClassNameToInternalName JavaClass.sourceText JavaClass.internalName
    rw [splitOn_terminated, splitOn_terminated, List.splitOn_eq_singleton (c.simple.not_mem (by decide)),
      internalNameLoop_pkg (by simp) hc.pkg, internalNameLoop_outer _ hc.outer]
  unfold encodeJavaType
  rw [lookup_primitive_eq_none hd (Or.inl hupper)]
  dsimp only
  rw [hname]
  rfl

theorem encodeJavaType_of_encodable {t : JavaType} (ht : t.Encodable) :
    encodeJavaType t.sourceText = t.fieldType.descriptor := by
  cases t with
  | prim p => cases p <;> rfl
  | cls c => exact encodeJavaType_cls ht
  | arr t => exact ht.elim

/-- An array type is taken for a class. -/
theorem encodeJavaType_arr_ne (t : JavaType) :
    encodeJavaType (JavaType.arr t).sourceText ≠ (JavaType.arr t).fieldType.descriptor := by
  have hbracket : '[' ∈ (JavaType.arr t).sourceText := List.mem_append_right _ (by decide)
  unfold encodeJavaType
  rw [lookup_primitive_eq_none hbracket (Or.inr rfl)]
  intro heq
  cases (List.cons.inj heq).1

/-- Without arrays and unconventional names the debugger would read the method from the signature alone. -/
theorem parse_signature_of_encodable {m : JavaMethod} (hparams : ∀ t ∈ m.params, t.Encodable)
    (hret : ∀ t, m.ret = some t → t.Encodable) :
    parseCompleteMethodSignature (currentInternalMethodSignature m) = some m.methodSig := by
  have hargs : encodedParams m = m.params.flatMap fun t => t.fieldType.descriptor :=
    List.flatMap_congr fun t ht => encodeJavaType_of_encodable (hparams t ht)
  have hrettype : encodeJavaType (returnText m.ret) = retText (m.ret.map JavaType.fieldType) := by
    cases h : m.ret with
    | none => rfl
    | some t => exact encodeJavaType_of_encodable (hret t h)
  rw [parse_signature, hargs, hrettype]
  rfl

/-! ### The line -/

theorem notMem_signature {m : JavaMethod} {d : Char} (hd : d = '-' ∨ d = '\n') :
    d ∉ currentInternalMethodSignature m := by
  have hident : identChar d = false := by rcases hd with rfl | rfl <;> decide
  have htype : typeChar d = false := by rcases hd with rfl | rfl <;> decide
  have hcode : d ∉ "ZBCSIJFDVL/$;".toList := by rcases hd with rfl | rfl <;> decide
  have hsep : d ≠ '/' ∧ d ≠ '$' ∧ d ≠ '.' ∧ d ≠ '(' ∧ d ≠ ')' := by rcases hd with rfl | rfl <;> decide
  obtain ⟨hslash, hdollar, hdot, hopen, hclose⟩ := hsep
  have hterm : ∀ {sep : Char} {names : List JavaIdent}, d ≠ sep → d ∉ terminated sep names := by
    intro sep names hne hmem
    rcases mem_terminated hmem with h | h
    · rw [hident] at h
      cases h
    · exact hne h
  have hname : d ∉ m.name.text := m.name.not_mem hident
  have hsimple : d ∉ m.cls.simple.text := m.cls.simple.not_mem hident
  have hparams : d ∉ encodedParams m := notMem_encodedParams hcode (Or.inl htype)
  have hret : d ∉ encodeJavaType (returnText m.ret) := notMem_encodedReturn hcode (Or.inl htype)
  rw [signature_eq]
  unfold JavaClass.internalName
  simp [hterm hslash, hterm hdollar, hsimple, hname, hparams, hret, hdot, hopen, hclose]

/-- The line without its end. -/
def sentLine (m : JavaMethod) (line : ℕ) : LuaString :=
  "bp(".toList ++ (currentInternalMethodSignature m ++ ',' :: intText line)

theorem notMem_sentLine {m : JavaMethod} {line : ℕ} {d : Char} (hd : d = '-' ∨ d = '\n') :
    d ∉ sentLine m line := by
  have hsig : d ∉ currentInternalMethodSignature m := notMem_signature hd
  have hline : d ∉ intText line := not_mem_intText (by rcases hd with rfl | rfl <;> decide)
  have hbp : d ∉ "bp(".toList := by rcases hd with rfl | rfl <;> decide
  have hcomma : d ≠ ',' := by rcases hd with rfl | rfl <;> decide
  unfold sentLine
  simp only [List.mem_append, List.mem_cons, not_or]
  exact ⟨hbp, hsig, hcomma, hline⟩

/-- `start_cmd` loads the line as it is. -/
theorem commandChunk_eq (m : JavaMethod) (line : ℕ) :
    commandChunk (readLine (gudYtBreakAtLine m line)) = sentLine m line := by
  have hsent : gudYtBreakAtLine m line = sentLine m line ++ ['\n'] := by
    unfold gudYtBreakAtLine sentLine
    simp
  have hall : ∀ c ∈ sentLine m line, (c != '\n') = true := by
    intro c hc
    rw [bne_iff_ne]
    rintro rfl
    exact notMem_sentLine (Or.inr rfl) hc
  have hread : readLine (gudYtBreakAtLine m line) = sentLine m line := by
    unfold readLine
    rw [hsent, List.takeWhile_append_of_pos hall]
    exact List.append_nil _
  rw [hread]
  have hfirst : (sentLine m line).take 1 = ['b'] := rfl
  unfold commandChunk
  rw [hfirst, if_neg (by decide)]

/-- The line ends with a digit. -/
theorem exists_last_digit (m : JavaMethod) (line : ℕ) :
    ∃ u d, sentLine m line = u ++ [d] ∧ d.isDigit = true := by
  rcases List.eq_nil_or_concat' (intText line) with hnil | ⟨ds, d, hsplit⟩
  · exact absurd hnil (intText_ne_nil line)
  · refine ⟨"bp(".toList ++ (currentInternalMethodSignature m ++ ',' :: ds), d, ?_, ?_⟩
    · unfold sentLine
      rw [hsplit]
      simp
    · exact isDigit_of_mem_intText (n := line) (by rw [hsplit]; simp)

/-- The tokens of a call end with a parenthesis or a semicolon. -/
theorem IsBpCall.exists_last {arg1 arg2 ts : List LuaToken} (h : IsBpCall arg1 arg2 ts) :
    ∃ ts' t c, ts = ts' ++ [t] ∧ t.text = [c] ∧ c.isDigit = false := by
  obtain ⟨semicolons, rfl, hsemi⟩ := h
  rcases List.eq_nil_or_concat' semicolons with rfl | ⟨l, t, rfl⟩
  · exact ⟨_, _, ')', List.append_nil _, rfl, by decide⟩
  · have htext : t.text = [';'] := congrArg LuaToken.text (hsemi t (by simp))
    exact ⟨_, t, ';', (List.append_assoc _ _ _).symm, htext, by decide⟩

/-- The end of the line is no end of a call. -/
theorem not_isBpCall {m : JavaMethod} {line : ℕ} {arg1 arg2 ts : List LuaToken}
    (hts : tokens (sentLine m line) = some ts) : ¬ IsBpCall arg1 arg2 ts := by
  intro hcall
  obtain ⟨ts', t, c, rfl, htext, hc⟩ := hcall.exists_last
  have hminus : '-' ∉ sentLine m line := notMem_sentLine (Or.inl rfl)
  obtain ⟨u, v, hsplit, hv⟩ := lex_last hminus hts
  -- the last character is that of the token, or a blank
  obtain ⟨w, e, hend, he⟩ : ∃ w e, sentLine m line = w ++ [e] ∧ e.isDigit = false := by
    rcases List.eq_nil_or_concat' v with rfl | ⟨v', e, rfl⟩
    · rw [htext, List.append_nil] at hsplit
      exact ⟨u, c, hsplit, hc⟩
    · refine ⟨u ++ t.text ++ v', e, hsplit.trans (List.append_assoc _ _ _).symm, ?_⟩
      exact isDigit_of_luaSpace (hv e (by simp))
  obtain ⟨w', d, hlast, hd⟩ := exists_last_digit m line
  rw [hend] at hlast
  have hed : e = d := List.singleton_inj.mp (List.append_inj' hlast rfl).2
  rw [hed, hd] at he
  cases he

/-- **The line that Emacs sends is no call of `bp`**, for any method, line and evaluation of expressions. -/
theorem not_sendsCall (eval : List LuaToken → Option (Value Class Ref)) (m : JavaMethod) (line : ℕ) :
    ¬ SendsCall eval m line := by
  rintro ⟨ts, arg1, arg2, s, hts, hcall, -⟩
  rw [commandChunk_eq] at hts
  exact not_isBpCall hts hcall

/-- `Main.run()`. -/
def runMethod : JavaMethod where
  cls := ⟨[], [], ⟨"Main".toList, by decide, List.forall_iff_forall_mem.mp (by decide)⟩⟩
  name := ⟨"run".toList, by decide, List.forall_iff_forall_mem.mp (by decide)⟩
  params := []
  ret := none

/-- No breakpoint is set on line 12 of `Main.run()`. -/
theorem runMethod_not_sent :
    commandChunk (readLine (gudYtBreakAtLine runMethod 12)) = "bp(Main.run()V,12".toList ∧
      ¬ ∃ eval : List LuaToken → Option (Value Unit Unit), SendsCall eval runMethod 12 := by
  constructor
  · decide +kernel
  · rintro ⟨eval, ts, arg1, arg2, s, hts, hcall, -⟩
    rw [commandChunk_eq] at hts
    exact not_isBpCall hts hcall

end Sent

end YellowTree
