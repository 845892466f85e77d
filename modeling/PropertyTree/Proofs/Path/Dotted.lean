import PropertyTree.Proofs.Path.Above

/-! # Dotted keys

Segments have no dots, so a dotted key splits at its dots into the segments that it was joined from,
and every path is read back from its key. Paths are told apart by their segments' texts.
-/

namespace PropertyTree

/-- A text without dots is the first part of what it opens. -/
theorem splitDots_append {text rest : List Char} (h : '.' ∉ text) :
    splitDots (text ++ '.' :: rest) = text :: splitDots rest := by
  induction text with
  | nil => rfl
  | cons c text ih =>
      obtain ⟨hc, htext⟩ := not_or.mp (mt List.mem_cons.mpr h)
      rw [List.cons_append, splitDots, if_neg (Ne.symm hc), ih htext]

theorem splitDots_of_not_mem {text : List Char} (h : '.' ∉ text) : splitDots text = [text] := by
  induction text with
  | nil => rfl
  | cons c text ih =>
      obtain ⟨hc, htext⟩ := not_or.mp (mt List.mem_cons.mpr h)
      rw [splitDots, if_neg (Ne.symm hc), ih htext]

/-- Splitting at dots undoes joining by dots. -/
theorem splitDots_intercalate {texts : List (List Char)} (hnonempty : texts ≠ [])
    (h : ∀ text ∈ texts, '.' ∉ text) : splitDots (['.'].intercalate texts) = texts := by
  induction texts with
  | nil => exact absurd rfl hnonempty
  | cons text rest ih =>
      obtain ⟨htext, hrest⟩ := List.forall_mem_cons.mp h
      cases rest with
      | nil => rw [List.intercalate_singleton, splitDots_of_not_mem htext]
      | cons next others =>
          rw [List.intercalate_cons_cons, List.append_assoc, List.singleton_append,
            splitDots_append htext, ih (List.cons_ne_nil _ _) hrest]

theorem Segment.ofText?_eq_some_iff {text : String} {segment : Segment} :
    ofText? text = some segment ↔ segment.text = text := by
  rw [ofText?]
  split
  next h =>
    rw [Option.some.injEq]
    constructor
    · rintro rfl
      rfl
    · rintro rfl
      rfl
  next h =>
    constructor
    · intro hnone
      cases hnone
    · rintro rfl
      exact absurd ⟨segment.nonempty, segment.undotted⟩ h

theorem Segment.ofText?_eq_none_iff {text : String} :
    ofText? text = none ↔ text = "" ∨ isDotted text = true := by
  rw [ofText?]
  split
  next h => simp [h]
  next h =>
    constructor
    · intro _
      by_cases hempty : text = ""
      · exact Or.inl hempty
      · exact Or.inr (eq_true_of_ne_false fun hundotted => h ⟨hempty, hundotted⟩)
    · intro _
      rfl

theorem isDotted_eq_false_iff {text : String} : isDotted text = false ↔ '.' ∉ text.toList := by
  rw [isDotted, List.contains_eq_mem, decide_eq_false_iff_not]

theorem Segment.not_mem_text (segment : Segment) : '.' ∉ segment.text.toList :=
  isDotted_eq_false_iff.mp segment.undotted

namespace Path

theorem filterMap_ofText?_texts (path : Path) :
    path.texts.filterMap Segment.ofText? = path.segments := by
  have hread : Segment.ofText? ∘ (·.text) = some :=
    funext fun segment => Segment.ofText?_eq_some_iff.mpr rfl
  rw [texts, List.filterMap_map, hread, List.filterMap_some]

theorem texts_ne_nil (path : Path) : path.texts ≠ [] := by
  rw [texts, Ne, List.map_eq_nil_iff]
  exact path.nonempty

/-- The texts of a path make up that path. -/
theorem ofTexts_texts (path : Path) : ofTexts path.texts = .ok path := by
  have hempty : path.texts.findIdx? (· = "") = none := by
    rw [List.findIdx?_eq_none_iff, texts, List.forall_mem_map]
    intro segment _
    exact decide_eq_false segment.nonempty
  have hdotted : path.texts.find? isDotted = none := by
    rw [List.find?_eq_none, texts, List.forall_mem_map]
    intro segment _
    exact Bool.eq_false_iff.mp segment.undotted
  have hpath : ofSegments? (path.texts.filterMap Segment.ofText?) = some path :=
    ofSegments?_eq_some_iff.mpr path.filterMap_ofText?_texts
  have hnonempty : ¬ path.texts.isEmpty = true := by
    rw [List.isEmpty_iff]
    exact path.texts_ne_nil
  rw [ofTexts, if_neg hnonempty, hempty, hdotted, hpath]

theorem map_text_filterMap_ofText? {texts : List String}
    (h : ∀ text ∈ texts, text ≠ "" ∧ isDotted text = false) :
    (texts.filterMap Segment.ofText?).map (·.text) = texts := by
  induction texts with
  | nil => rfl
  | cons text rest ih =>
      obtain ⟨htext, hrest⟩ := List.forall_mem_cons.mp h
      have hread : Segment.ofText? text = some ⟨text, htext.1, htext.2⟩ := dif_pos htext
      rw [List.filterMap_cons_some hread, List.map_cons, ih hrest]

/-- Only the texts of a path make up a path. -/
theorem ofTexts_eq_ok_iff {texts : List String} {path : Path} :
    ofTexts texts = .ok path ↔ path.texts = texts := by
  constructor
  · intro h
    unfold ofTexts at h
    split at h
    next => cases h
    next =>
      split at h
      next => cases h
      next hempty =>
        split at h
        next => cases h
        next hdotted =>
          have hvalid : ∀ text ∈ texts, text ≠ "" ∧ isDotted text = false := by
            intro text hmem
            rw [List.findIdx?_eq_none_iff] at hempty
            rw [List.find?_eq_none] at hdotted
            exact ⟨of_decide_eq_false (hempty text hmem), Bool.eq_false_iff.mpr (hdotted text hmem)⟩
          split at h
          next made hsegments =>
            cases h
            rw [Path.texts, ← ofSegments?_eq_some_iff.mp hsegments,
              map_text_filterMap_ofText? hvalid]
          next => cases h
  · rintro rfl
    exact path.ofTexts_texts

/-- Every path is read back from its dotted key. -/
theorem parse_dotted (path : Path) : parse path.dotted = .ok path := by
  have hsplit : splitDots path.dotted.toList = path.texts.map String.toList := by
    rw [dotted, joinDots, String.toList_intercalate]
    refine splitDots_intercalate ?_ ?_
    · rw [Ne, List.map_eq_nil_iff]
      exact path.texts_ne_nil
    · rw [texts, List.map_map, List.forall_mem_map]
      intro segment _
      exact segment.not_mem_text
  have htexts : (splitDots path.dotted.toList).map String.ofList = path.texts := by
    rw [hsplit, List.map_map]
    exact (List.map_congr_left fun _ _ => String.ofList_toList).trans (List.map_id _)
  have hnonempty : path.dotted ≠ "" := by
    intro hempty
    -- An empty key would split into one empty part.
    rw [hempty] at htexts
    have hofTexts := path.ofTexts_texts
    rw [← htexts] at hofTexts
    cases hofTexts
  rw [parse, if_neg hnonempty, htexts, ofTexts_texts]

theorem dotted_injective : Function.Injective dotted := by
  intro a b h
  have hparse := a.parse_dotted
  rw [h, b.parse_dotted] at hparse
  exact (Except.ok.inj hparse).symm

theorem leadsTo_iff_texts {a b : Path} : a.LeadsTo b ↔ a.texts <+: b.texts :=
  (List.prefix_map_iff_of_injective fun _ _ => Segment.ext).symm

/-- Paths that part after the same texts are apart. -/
theorem apart_of_texts {a b : Path} {above : List String} {left right : String}
    (hne : left ≠ right) (ha : above ++ [left] <+: a.texts) (hb : above ++ [right] <+: b.texts) :
    a.Apart b := by
  -- Both would start the longer of the two paths.
  have hpart : ∀ texts, above ++ [left] <+: texts → ¬ above ++ [right] <+: texts := by
    intro texts hleft hright
    have hlength : (above ++ [left]).length = (above ++ [right]).length := by simp
    have hstart := List.prefix_of_prefix_length_le hleft hright (Nat.le_of_eq hlength)
    exact hne (List.append_singleton_inj.mp (hstart.eq_of_length hlength)).2
  exact ⟨fun hleads => hpart _ (ha.trans (leadsTo_iff_texts.mp hleads)) hb,
    fun hleads => hpart _ ha (hb.trans (leadsTo_iff_texts.mp hleads))⟩

end Path

end PropertyTree
