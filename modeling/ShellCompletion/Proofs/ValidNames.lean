import ShellCompletion.Proofs.Acceptance
import ShellCompletion.Proofs.Identifier

/-! Which shell names are valid. Behind its stem the name of a path begins with an underscore and goes on with letters,
    digits and underscores, whatever the command names are made of; so it is valid if the stem is, or if there is none.
    All its characters are ASCII, so that the length in front of a segment counts characters and bytes alike. -/

namespace ShellCompletion

namespace Text

theorem foldl_utf8Size {t : Text} (ht : ∀ c ∈ t, c.utf8Size = 1) (n : Nat) :
    t.foldl (fun n c => n + c.utf8Size) n = n + t.length := by
  induction t generalizing n with
  | nil => rfl
  | cons c t ih =>
    obtain ⟨hc, ht⟩ := List.forall_mem_cons.mp ht
    rw [List.foldl_cons, ih ht, hc, List.length_cons, Nat.add_assoc, Nat.add_comm 1]

/-- A text has as many bytes as characters if each of them is a single byte. -/
theorem byteCount_eq_length {t : Text} (ht : ∀ c ∈ t, c.utf8Size = 1) : t.byteCount = t.length :=
  (foldl_utf8Size ht 0).trans (Nat.zero_add t.length)

end Text

namespace Shell.Identifier
variable {c : Char} {s t : Text} {path : List Text}

/-- Of the characters in names each is a single byte. -/
theorem IsNameChar.utf8Size_eq (h : IsNameChar c) : c.utf8Size = 1 := by
  rw [Char.utf8Size_eq_one_iff]
  rcases h with halnum | rfl
  · rcases Bool.or_eq_true_iff.mp halnum with halpha | hdigit
    · rcases Bool.or_eq_true_iff.mp halpha with hupper | hlower
      · exact UInt32.le_trans (of_decide_eq_true hupper).2 (by decide)
      · exact UInt32.le_trans (of_decide_eq_true (Bool.and_eq_true_iff.mp hlower).2) (by decide)
    · exact UInt32.le_trans (of_decide_eq_true (Bool.and_eq_true_iff.mp hdigit).2) (by decide)
  · decide

theorem byteCount_encode (segment : Text) : (encode segment).byteCount = (encode segment).length :=
  Text.byteCount_eq_length fun _ hc => (isNameChar_of_mem_encode hc).utf8Size_eq

/-- The length in front of a segment may be counted in bytes. -/
theorem ofPath_eq (path : List Text) :
    ofPath path = path.flatMap fun segment =>
      ['_'] ++ Text.decimal (encode segment).byteCount ++ ['_'] ++ encode segment := by
  simp only [byteCount_encode]
  rfl

theorem isValid_iff :
    isValid t = true ↔ ∃ c rest, t = c :: rest ∧ (c.isAlpha = true ∨ c = '_') ∧ ∀ d ∈ rest, IsNameChar d := by
  cases t <;> simp [isValid, IsNameChar]

theorem isNameChar_of_isValid (h : isValid t = true) : ∀ c ∈ t, IsNameChar c := by
  obtain ⟨c, rest, rfl, hc, hrest⟩ := isValid_iff.mp h
  refine List.forall_mem_cons.mpr ⟨?_, hrest⟩
  exact hc.imp_left fun halpha => Bool.or_eq_true_iff.mpr (Or.inl halpha)

theorem isValid_append (hs : s ≠ []) (ht : ∀ c ∈ t, IsNameChar c) : isValid (s ++ t) = isValid s := by
  obtain ⟨c, s, rfl⟩ := List.exists_cons_of_ne_nil hs
  have all : (t.all fun d => d.isAlphanum || d = '_') = true := by simpa [IsNameChar] using ht
  rw [List.cons_append, isValid, isValid, List.all_append, all, Bool.and_true]

theorem isValid_ofPath (hpath : path ≠ []) : isValid (ofPath path) = true := by
  obtain ⟨segment, more, rfl⟩ := List.exists_cons_of_ne_nil hpath
  have front : ofPath (segment :: more) =
      '_' :: (Text.decimal (encode segment).length ++ ['_'] ++ encode segment ++ ofPath more) := rfl
  refine isValid_iff.mpr ⟨_, _, front, Or.inr rfl, fun d hd => ?_⟩
  exact isNameChar_of_mem_ofPath (front ▸ List.mem_cons_of_mem _ hd)

end Shell.Identifier

open Shell.Identifier

namespace CompletionFunction
variable {stem : Text} {path : List Text} {node : Command.Node} {name : Text}

/-- A name is valid if its stem is, or if it has none. -/
theorem isValid_identifierOf_iff (hpath : path ≠ []) :
    isValid (identifierOf stem path) = true ↔ stem = [] ∨ isValid stem = true := by
  by_cases hstem : stem = []
  · subst hstem
    exact iff_of_true (isValid_ofPath hpath) (Or.inl rfl)
  · rw [identifierOf, isValid_append hstem fun _ => isNameChar_of_mem_ofPath]
    simp [hstem]

/-- The names of functions that stand in a function: its own, and those of its subcommands. -/
def identifiers (f : CompletionFunction) : List Text := f.identifier :: f.subcommands.map (·.identifier)

theorem exists_path_of_mem_identifiers (hpath : node.path ≠ []) (hname : name ∈ (atNode stem node).identifiers) :
    ∃ path, path ≠ [] ∧ name = identifierOf stem path := by
  rcases List.mem_cons.mp hname with rfl | hname
  · exact ⟨node.path, hpath, rfl⟩
  · obtain ⟨link, hlink, rfl⟩ := List.mem_map.mp hname
    obtain ⟨sub, -, rfl⟩ := List.mem_map.mp hlink
    exact ⟨node.path ++ [sub], by simp, rfl⟩

end CompletionFunction

/-- The names of functions that stand in an entry point: its own, that of the root, and those of its transitions. -/
def EntryFunction.identifiers (e : EntryFunction) : List Text :=
  e.identifier :: e.root :: e.transitions.flatMap fun t => t.source :: t.targets.map (·.identifier)

namespace Script
open CompletionFunction
variable {model : Command} {name : Text}

theorem isValid_of_mem_functionsOf {f : CompletionFunction} (hf : f ∈ functionsOf model)
    (hname : name ∈ f.identifiers) : isValid name = true := by
  obtain ⟨node, hnode, rfl⟩ := List.mem_map.mp hf
  obtain ⟨more, hpath⟩ := Command.path_of_mem_nodes hnode
  obtain ⟨path, hne, rfl⟩ := exists_path_of_mem_identifiers (by simp [hpath]) hname
  exact (isValid_identifierOf_iff hne).mpr (Or.inr rfl)

/-- Besides its own name an entry point knows only names that stand in the functions. -/
theorem isValid_of_mem_entryOf {kept : List Text} (hname : name ∈ (entryOf model kept).identifiers) :
    isValid name = true := by
  rcases List.mem_cons.mp hname with rfl | hname
  · exact (isValid_identifierOf_iff (List.cons_ne_nil model.name [])).mpr (Or.inr rfl)
  rcases List.mem_cons.mp hname with rfl | hname
  · exact (isValid_identifierOf_iff (List.cons_ne_nil model.name [])).mpr (Or.inr rfl)
  · obtain ⟨t, ht, hname⟩ := List.mem_flatMap.mp hname
    obtain ⟨f, hf, rfl⟩ := List.mem_map.mp ht
    exact isValid_of_mem_functionsOf (List.mem_of_mem_filter hf) hname

/-- The name of a path is valid exactly if its stem is valid or empty, whatever the segments are. In front of each
    encoded segment it has the number of its bytes, which is that of its characters. So all names of functions in a
    script are valid, and they consist of ASCII letters, digits and underscores. -/
theorem identifiers_are_valid :
    (∀ (stem : Text) (path : List Text), path ≠ [] → ∃ name, identifierOf? stem path = .ok name ∧
      (isValid name = true ↔ stem = [] ∨ isValid stem = true) ∧
      name = stem ++ path.flatMap fun segment =>
        ['_'] ++ Text.decimal (encode segment).byteCount ++ ['_'] ++ encode segment) ∧
    (∀ segment : Text, (encode segment).byteCount = (encode segment).length) ∧
    ∀ (aliases : List Text) (model : Command) (banner script : Text),
      (generate aliases model banner).result = .ok script →
        ∃ functions entry, GeneratedFrom aliases model banner script functions entry ∧
          ∀ name ∈ functions.flatMap (·.identifiers) ++ entry.identifiers,
            isValid name = true ∧ ∀ c ∈ name, c.isAlphanum = true ∨ c = '_' := by
  refine ⟨fun stem path hpath => ?paths, byteCount_encode, fun _ _ _ _ accepted => ?script⟩
  case paths =>
    exact ⟨_, identifierOf?_eq_ok hpath, isValid_identifierOf_iff hpath, congrArg (stem ++ ·) (ofPath_eq path)⟩
  case script =>
    obtain ⟨functions, entry, generated⟩ := generate_eq_ok_iff_generatedFrom.mp accepted
    refine ⟨functions, entry, generated, fun name hname => ?_⟩
    obtain ⟨-, -, rfl, rfl, -⟩ := generatedFrom_iff.mp generated
    have hvalid : isValid name = true := by
      rcases List.mem_append.mp hname with hname | hname
      · obtain ⟨f, hf, hname⟩ := List.mem_flatMap.mp hname
        exact isValid_of_mem_functionsOf hf hname
      · exact isValid_of_mem_entryOf hname
    exact ⟨hvalid, isNameChar_of_isValid hvalid⟩

/-- Segments that are no names, behind no stem and behind one that is no name; and the sample. -/
theorem identifiers_are_valid_sample :
    (∃ name, identifierOf? [] ["é '.".toList, []] = .ok name ∧ name = "_16__e9__20__27__2e__0_".toList ∧
      isValid name = true) ∧
    (∃ name, identifierOf? "a.".toList ["é '.".toList, []] = .ok name ∧ isValid name = false) ∧
    ∃ script functions entry, (generate sampleAliases sample []).result = .ok script ∧
      GeneratedFrom sampleAliases sample [] script functions entry ∧
        ∀ name ∈ functions.flatMap (·.identifiers) ++ entry.identifiers, isValid name = true := by
  obtain ⟨paths, -, scripts⟩ := identifiers_are_valid
  obtain ⟨name, hname, hvalid, heq⟩ := paths [] ["é '.".toList, []] (List.cons_ne_nil _ _)
  obtain ⟨name', hname', hvalid', -⟩ := paths "a.".toList ["é '.".toList, []] (List.cons_ne_nil _ _)
  have stem : ¬("a.".toList = [] ∨ isValid "a.".toList = true) := by decide
  obtain ⟨script, accepted⟩ := sample_accepted
  obtain ⟨functions, entry, generated, valid⟩ := scripts _ _ _ _ accepted
  refine ⟨⟨name, hname, heq.trans rfl, hvalid.mpr (Or.inl rfl)⟩, ⟨name', hname', ?_⟩,
    script, functions, entry, accepted, generated, fun n hn => (valid n hn).1⟩
  exact Bool.eq_false_iff.mpr fun h => stem (hvalid'.mp h)

end Script
end ShellCompletion
