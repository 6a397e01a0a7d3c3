import EntityGen.Binding
import EntityGen.Proofs.Text.Lines

namespace EntityGen

namespace Namespace

variable {cs ds : List Char} {names : List String}

theorem segments_cons {c : Char} (h : c ≠ ':') : segments (c :: cs) = (segments cs).modifyHead (c :: ·) :=
  segments.eq_2 c cs fun _ hc _ => h hc

theorem segments_plain (h : ':' ∉ cs) : segments cs = [cs] := by
  induction cs with
  | nil => rfl
  | cons c cs ih =>
      rw [List.mem_cons, not_or, eq_comm] at h
      rw [segments_cons h.1, ih h.2, List.modifyHead_cons]

theorem segments_append (h : ':' ∉ cs) : segments (cs ++ ':' :: ':' :: ds) = cs :: segments ds := by
  induction cs with
  | nil => rfl
  | cons c cs ih =>
      rw [List.mem_cons, not_or, eq_comm] at h
      rw [List.cons_append, segments_cons h.1, ih h.2, List.modifyHead_cons]

theorem segments_joined (hne : names ≠ []) (h : ∀ n ∈ names, ':' ∉ n.toList) :
    segments ("::".intercalate names).toList = names.map String.toList := by
  induction names with
  | nil => contradiction
  | cons n ns ih =>
      obtain ⟨hn, hns⟩ := List.forall_mem_cons.1 h
      cases ns with
      | nil => simpa using segments_plain hn
      | cons m ms =>
          have hcons : ("::".intercalate (n :: m :: ms)).toList =
              n.toList ++ ':' :: ':' :: ("::".intercalate (m :: ms)).toList := by
            simp [String.intercalate_cons_cons]
          rw [hcons, segments_append hn, ih (by simp) hns, ← List.map_cons]

theorem mangle_joined (h : ∀ n ∈ names, ':' ∉ n.toList) :
    mangle ("::".intercalate names) = "_".intercalate (names.filter (· ≠ "")) := by
  by_cases hne : names = []
  · subst hne
    decide
  · have hfilter : ((names.map String.toList).filter (· ≠ [])).map String.ofList =
        names.filter (· ≠ "") := by
      simp [List.filter_map, Function.comp_def]
    rw [mangle, segments_joined hne h, hfilter]

end Namespace

def isLetter (c : Char) : Bool := c.isAlpha || c == '_'

/-- The characters of identifiers, at their first place and after it. Which letters there are besides
those of ASCII depends on the edition of the language. -/
structure Alphabet where
  first : Char → Bool
  later : Char → Bool
  first_letter : ∀ c, isLetter c → first c
  later_first : ∀ c, first c → later c
  later_digit : ∀ c, c.isDigit → later c
  later_colon : later ':' = false

/-- The words that are spelled like identifiers and are none, in one edition or another. -/
def keywords : List String :=
  ["alignas", "alignof", "and", "and_eq", "asm", "auto", "bitand", "bitor", "bool", "break", "case", "catch",
    "char", "char8_t", "char16_t", "char32_t", "class", "compl", "concept", "const", "consteval", "constexpr",
    "constinit", "const_cast", "continue", "co_await", "co_return", "co_yield", "decltype", "default", "delete",
    "do", "double", "dynamic_cast", "else", "enum", "explicit", "export", "extern", "false", "float", "for",
    "friend", "goto", "if", "inline", "int", "long", "mutable", "namespace", "new", "noexcept", "not", "not_eq",
    "nullptr", "operator", "or", "or_eq", "private", "protected", "public", "register", "reinterpret_cast",
    "requires", "return", "short", "signed", "sizeof", "static", "static_assert", "static_cast", "struct",
    "switch", "template", "this", "thread_local", "throw", "true", "try", "typedef", "typeid", "typename",
    "union", "unsigned", "using", "virtual", "void", "volatile", "wchar_t", "while", "xor", "xor_eq"]

namespace Alphabet

def ascii : Alphabet where
  first := isLetter
  later c := isLetter c || c.isDigit
  first_letter _ h := h
  later_first c h := by rw [h, Bool.true_or]
  later_digit c h := by rw [h, Bool.or_true]
  later_colon := by decide

structure IsWord (a : Alphabet) (s : String) : Prop where
  first : s.toList.head?.any a.first
  later : s.toList.all a.later

instance (a : Alphabet) (s : String) : Decidable (a.IsWord s) :=
  decidable_of_iff (s.toList.head?.any a.first ∧ s.toList.all a.later)
    ⟨fun h => ⟨h.1, h.2⟩, fun h => ⟨h.first, h.later⟩⟩

variable {a : Alphabet} {s t : String} {words : List String}

theorem later_letters (h : s.toList.all isLetter) : s.toList.all a.later :=
  List.all_eq_true.2 fun c hc => a.later_first c (a.first_letter c (List.all_eq_true.1 h c hc))

theorem isWord_of_letters (hne : s ≠ "") (h : s.toList.all isLetter) : a.IsWord s where
  first := by
    cases hs : s.toList with
    | nil => exact absurd (String.toList_eq_nil_iff.1 hs) hne
    | cons c cs => exact a.first_letter c (List.all_eq_true.1 h c (by rw [hs]; exact List.mem_cons_self))
  later := later_letters h

theorem IsWord.colon (h : a.IsWord s) : ':' ∉ s.toList := by
  intro hc
  have hlater := List.all_eq_true.1 h.later _ hc
  rw [a.later_colon] at hlater
  cases hlater

theorem IsWord.nonempty (h : a.IsWord s) : s ≠ "" := by
  rintro rfl
  cases h.first

theorem IsWord.append (h : a.IsWord s) (ht : t.toList.all a.later) : a.IsWord (s ++ t) where
  first := by
    have hfirst := h.first
    rw [String.toList_append]
    cases hs : s.toList with
    | nil => rw [hs] at hfirst; cases hfirst
    | cons c cs => rwa [hs] at hfirst
  later := by rw [String.toList_append, List.all_append, h.later, ht, Bool.and_self]

theorem later_joined (h : ∀ w ∈ words, a.IsWord w) : ("_".intercalate words).toList.all a.later := by
  have hunderscore : "_".toList.all a.later := later_letters (by decide)
  induction words with
  | nil => rfl
  | cons w ws ih =>
      obtain ⟨hw, hws⟩ := List.forall_mem_cons.1 h
      cases ws with
      | nil => simpa using hw.later
      | cons v vs =>
          rw [String.intercalate_cons_cons, String.toList_append, String.toList_append, List.all_append,
            List.all_append, hw.later, hunderscore, ih hws, Bool.and_self, Bool.and_self]

end Alphabet

namespace Schema

/-- The entity has a name of its own in these namespaces, of which each is in the one before it. -/
structure Named (a : Alphabet) (s : Schema) (spaces : List String) : Prop where
  words : ∀ n ∈ spaces ++ [s.name], a.IsWord n
  scope : s.scope = if spaces = [] then none else some ("::".intercalate spaces)

instance (a : Alphabet) (s : Schema) (spaces : List String) : Decidable (s.Named a spaces) :=
  decidable_of_iff ((∀ n ∈ spaces ++ [s.name], a.IsWord n) ∧
      s.scope = if spaces = [] then none else some ("::".intercalate spaces))
    ⟨fun h => ⟨h.1, h.2⟩, fun h => ⟨h.words, h.scope⟩⟩

variable {a : Alphabet} {s t : Schema} {ss ts : List String}

theorem bindingFunction_named (h : s.Named a ss) :
    s.bindingFunction = "make_" ++ "_".intercalate (ss ++ [s.name]) ++ "_chai_bindings" := by
  rw [bindingFunction, h.scope]
  by_cases hss : ss = []
  · simp [hss]
  · have hwords := (List.forall_mem_append.1 h.words).1
    have hfull : ss.filter (· ≠ "") = ss :=
      List.filter_eq_self.2 fun n hn => decide_eq_true (hwords n hn).nonempty
    have hmangle : Namespace.mangle ("::".intercalate ss) = "_".intercalate ss := by
      rw [Namespace.mangle_joined fun n hn => (hwords n hn).colon, hfull]
    rw [if_neg hss, String.intercalate_append_of_ne_nil hss (by simp), String.intercalate_singleton, ← hmangle]
    simp only [String.append_assoc]

theorem qualifiedName_named (h : s.Named a ss) : s.qualifiedName = "::".intercalate (ss ++ [s.name]) := by
  rw [qualifiedName, h.scope]
  by_cases hss : ss = []
  · simp [hss]
  · rw [if_neg hss, String.intercalate_append_of_ne_nil hss (by simp), String.intercalate_singleton]

theorem bindingFunction_isWord (h : s.Named a ss) : a.IsWord s.bindingFunction := by
  have hopening : a.IsWord "make_" := Alphabet.isWord_of_letters (by decide) (by decide)
  have hclosing : "_chai_bindings".toList.all a.later := Alphabet.later_letters (by decide)
  rw [bindingFunction_named h]
  exact (hopening.append (Alphabet.later_joined h.words)).append hclosing

theorem bindingFunction_not_keyword (s : Schema) : s.bindingFunction ∉ keywords := by
  have hkeywords : ∀ w ∈ keywords, ¬ "make_".toList <+: w.toList := by decide +kernel
  intro hm
  refine hkeywords _ hm ?_
  rw [bindingFunction]
  cases s.scope <;> simp [String.append_assoc]

theorem bindingFunction_eq_iff (hs : s.Named a ss) (ht : t.Named a ts) :
    s.bindingFunction = t.bindingFunction ↔
      "_".intercalate (ss ++ [s.name]) = "_".intercalate (ts ++ [t.name]) := by
  rw [bindingFunction_named hs, bindingFunction_named ht, String.append_left_inj, String.append_right_inj]

theorem joined_injective {ns ms : List String} (hns : ns ≠ []) (hms : ms ≠ [])
    (hn : ∀ n ∈ ns, '_' ∉ n.toList) (hm : ∀ m ∈ ms, '_' ∉ m.toList)
    (h : "_".intercalate ns = "_".intercalate ms) : ns = ms := by
  have hsplit : ∀ ks : List String, ks ≠ [] → (∀ k ∈ ks, '_' ∉ k.toList) →
      ("_".intercalate ks).toList.splitOn '_' = ks.map String.toList := by
    intro ks hne hk
    have hunderscore : "_".toList = ['_'] := by decide
    rw [String.toList_intercalate, hunderscore]
    exact List.splitOn_intercalate '_' (List.forall_mem_map.2 hk) (by simpa using hne)
  have hlists := hsplit ns hns hn
  rw [h, hsplit ms hms hm] at hlists
  exact ((List.map_inj_right fun _ _ => String.toList_injective).1 hlists).symm

/-- The function of an entity is an identifier. Two entities have one function if and only if underscores
join their names to one text; that makes them one entity if no name holds an underscore. A namespace stays
the same for its entities with separators at either end of it, and with more than one between two names. -/
theorem function_shared_iff (a : Alphabet) (s t : Schema) (ss ts : List String) (hs : s.Named a ss)
    (ht : t.Named a ts) :
    (a.IsWord s.bindingFunction ∧ s.bindingFunction ∉ keywords) ∧
    (s.bindingFunction = t.bindingFunction ↔
      "_".intercalate (ss ++ [s.name]) = "_".intercalate (ts ++ [t.name])) ∧
    ((∀ n ∈ ss ++ [s.name], '_' ∉ n.toList) → (∀ n ∈ ts ++ [t.name], '_' ∉ n.toList) →
      s.bindingFunction = t.bindingFunction → s.qualifiedName = t.qualifiedName) ∧
    ∀ names : List String, (∀ n ∈ names, n = "" ∨ a.IsWord n) →
      Namespace.mangle ("::".intercalate names) = "_".intercalate (names.filter (· ≠ "")) ∧
      Namespace.mangle ("::".intercalate names) =
        Namespace.mangle ("::".intercalate (names.filter (· ≠ ""))) := by
  refine ⟨⟨bindingFunction_isWord hs, bindingFunction_not_keyword s⟩, bindingFunction_eq_iff hs ht,
    fun hns hnt h => ?_, fun names hnames => ?_⟩
  · have hjoined := (bindingFunction_eq_iff hs ht).1 h
    have hnames := joined_injective (by simp) (by simp) hns hnt hjoined
    rw [qualifiedName_named hs, qualifiedName_named ht, hnames]
  · have hcolon : ∀ n ∈ names, ':' ∉ n.toList := by
      intro n hn
      rcases hnames n hn with rfl | hword
      · simp
      · exact hword.colon
    have hfilter : ∀ n ∈ names.filter (· ≠ ""), ':' ∉ n.toList := fun n hn => hcolon n (List.mem_filter.1 hn).1
    refine ⟨Namespace.mangle_joined hcolon, ?_⟩
    rw [Namespace.mangle_joined hcolon, Namespace.mangle_joined hfilter, List.filter_filter]
    simp only [Bool.and_self]

def health : Schema := { name := "Health", scope := "game" }

theorem health_function_shared :
    (health.Named .ascii ["game"] ∧ Named .ascii { name := "game_Health" } []) ∧
    health.bindingFunction = bindingFunction { name := "game_Health" } ∧
    health.qualifiedName = qualifiedName { health with flags := ["net"] } ∧
    Namespace.mangle "::game::::net::" = "game_net" := by
  have hnamed : health.Named .ascii ["game"] := by decide
  have hflat : Named .ascii { name := "game_Health" } [] := by decide
  have hnet : Named .ascii { health with flags := ["net"] } ["game"] := by decide
  obtain ⟨-, hshared, -, hmangle⟩ := function_shared_iff _ _ _ _ _ hnamed hflat
  obtain ⟨-, -, hone, -⟩ := function_shared_iff _ _ _ _ _ hnamed hnet
  have hspaces := (hmangle ["", "game", "", "net", ""] (by decide)).1
  exact ⟨⟨hnamed, hflat⟩, hshared.2 (by decide), hone (by decide) (by decide) rfl, hspaces⟩

end Schema

end EntityGen
