import PropertyTree.Path.Codec
import PropertyTree.Proofs.Except
import PropertyTree.Proofs.Path.Dotted

/-! # Paths and dotted keys are one to one

A text is cut by its dots into parts in one way only. It is the key of a path if none of them is
empty, which can be seen at its ends and where two dots meet; otherwise the first empty part is what
its reader complains of. Whichever way a path is made, it is the one that its key stands for.
-/

namespace PropertyTree

section Split

variable {text part : List Char}

theorem splitDots_cons_dot (rest : List Char) : splitDots ('.' :: rest) = [] :: splitDots rest :=
  if_pos rfl

/-- There is a first part, and a character that is no dot adds to it. -/
theorem exists_splitDots (text : List Char) :
    ∃ part parts, splitDots text = part :: parts ∧
      ∀ c, c ≠ '.' → splitDots (c :: text) = (c :: part) :: parts := by
  have hcons : ∃ part parts, splitDots text = part :: parts := by
    cases text with
    | nil => exact ⟨[], [], rfl⟩
    | cons c rest =>
        rw [splitDots]
        split
        next => exact ⟨_, _, rfl⟩
        next => split <;> exact ⟨_, _, rfl⟩
  obtain ⟨part, parts, hsplit⟩ := hcons
  refine ⟨part, parts, hsplit, fun c hc => ?_⟩
  rw [splitDots, if_neg hc, hsplit]

theorem splitDots_ne_nil (text : List Char) : splitDots text ≠ [] := by
  obtain ⟨part, parts, hsplit, _⟩ := exists_splitDots text
  rw [hsplit]
  exact List.cons_ne_nil part parts

/-- Joining by dots undoes splitting at dots. -/
theorem intercalate_splitDots (text : List Char) : ['.'].intercalate (splitDots text) = text := by
  induction text with
  | nil => rfl
  | cons c rest ih =>
      obtain ⟨part, parts, hsplit, hcons⟩ := exists_splitDots rest
      by_cases hc : c = '.'
      · subst hc
        rw [splitDots_cons_dot, hsplit, List.intercalate_cons_cons, ← hsplit, ih]
        rfl
      · rw [hsplit] at ih
        rw [hcons c hc, ← ih]
        cases parts <;> simp

theorem not_mem_of_mem_splitDots (h : part ∈ splitDots text) : '.' ∉ part := by
  induction text generalizing part with
  | nil =>
      rw [List.mem_singleton.mp h]
      exact List.not_mem_nil
  | cons c rest ih =>
      obtain ⟨first, parts, hsplit, hcons⟩ := exists_splitDots rest
      by_cases hc : c = '.'
      · subst hc
        rw [splitDots_cons_dot] at h
        rcases List.mem_cons.mp h with rfl | h
        · exact List.not_mem_nil
        · exact ih h
      · rw [hcons c hc] at h
        rw [hsplit] at ih
        rcases List.mem_cons.mp h with rfl | h
        · exact List.not_mem_cons_of_ne_of_not_mem (Ne.symm hc) (ih List.mem_cons_self)
        · exact ih (List.mem_cons_of_mem _ h)

/-- The first part is empty only if the text is, or starts with a dot. -/
theorem head?_splitDots_eq_nil_iff (text : List Char) :
    (splitDots text).head? = some [] ↔ text = [] ∨ ['.'] <+: text := by
  cases text with
  | nil => simp [splitDots]
  | cons c rest =>
      obtain ⟨first, parts, _, hcons⟩ := exists_splitDots rest
      by_cases hc : c = '.'
      · subst hc
        simp [splitDots_cons_dot]
      · simp [hcons c hc, List.cons_prefix_cons, Ne.symm hc]

/-- A part after the first is empty only if the text ends with a dot or two dots meet in it. -/
theorem nil_mem_tail_splitDots_iff (text : List Char) :
    [] ∈ (splitDots text).tail ↔ ['.'] <:+ text ∨ ['.', '.'] <:+: text := by
  induction text with
  | nil => simp [splitDots]
  | cons c rest ih =>
      obtain ⟨first, parts, hsplit, hcons⟩ := exists_splitDots rest
      rw [hsplit, List.tail_cons] at ih
      rw [List.suffix_cons_iff, List.infix_cons_iff, List.cons_prefix_cons]
      by_cases hc : c = '.'
      · subst hc
        have hfirst := head?_splitDots_eq_nil_iff rest
        rw [hsplit, List.head?_cons, Option.some.injEq] at hfirst
        rw [splitDots_cons_dot, hsplit, List.tail_cons, List.mem_cons, ih, eq_comm, hfirst,
          List.cons.injEq, eq_comm (a := [])]
        simp only [true_and, or_assoc, or_left_comm]
      · have hne : ['.'] ≠ c :: rest := fun heq => hc (List.cons.inj heq).1.symm
        rw [hcons c hc, List.tail_cons, ih]
        simp [Ne.symm hc, hne]

end Split

/-- The text is these parts joined by dots, and there are no dots inside them. -/
structure IsCutInto (text : String) (parts : List String) : Prop where
  nonempty : parts ≠ []
  undotted : ∀ part ∈ parts, '.' ∉ part.toList
  joined : joinDots parts = text

/-- A text is cut by its dots in one way only. -/
theorem isCutInto_iff {text : String} {parts : List String} :
    IsCutInto text parts ↔ parts = (splitDots text.toList).map String.ofList := by
  constructor
  · rintro ⟨hnonempty, hundotted, rfl⟩
    have hsplit : splitDots (joinDots parts).toList = parts.map String.toList := by
      rw [joinDots, String.toList_intercalate]
      refine splitDots_intercalate ?_ (List.forall_mem_map.mpr hundotted)
      rwa [Ne, List.map_eq_nil_iff]
    rw [hsplit, List.map_map]
    exact ((List.map_congr_left fun _ _ => String.ofList_toList).trans (List.map_id _)).symm
  · rintro rfl
    refine ⟨?_, ?_, ?_⟩
    · rw [Ne, List.map_eq_nil_iff]
      exact splitDots_ne_nil _
    · rw [List.forall_mem_map]
      intro part hpart
      rw [String.toList_ofList]
      exact not_mem_of_mem_splitDots hpart
    · rw [joinDots, ← String.toList_inj, String.toList_intercalate, List.map_map]
      have hparts : (splitDots text.toList).map (String.toList ∘ String.ofList) =
          splitDots text.toList :=
        (List.map_congr_left fun _ _ => String.toList_ofList).trans (List.map_id _)
      rw [hparts]
      exact intercalate_splitDots _

/-- The text is not empty, no dot stands at either end, and no two dots meet. -/
structure IsKey (text : String) : Prop where
  nonempty : text ≠ ""
  not_start : ¬ ['.'] <+: text.toList
  not_end : ¬ ['.'] <:+ text.toList
  not_adjacent : ¬ ['.', '.'] <:+: text.toList

/-- A text is a key just if none of its parts is empty. -/
theorem IsCutInto.isKey_iff {text : String} {parts : List String} (hcut : IsCutInto text parts) :
    IsKey text ↔ ∀ part ∈ parts, part ≠ "" := by
  have hparts : (∀ part ∈ parts, part ≠ "") ↔ [] ∉ splitDots text.toList := by
    rw [isCutInto_iff.mp hcut, List.forall_mem_map]
    constructor
    · intro h hmem
      exact h [] hmem rfl
    · rintro h part hpart hempty
      rw [String.ofList_eq_empty_iff] at hempty
      exact h (hempty ▸ hpart)
  obtain ⟨first, rest, hsplit, _⟩ := exists_splitDots text.toList
  have hhead := head?_splitDots_eq_nil_iff text.toList
  have htail := nil_mem_tail_splitDots_iff text.toList
  rw [hsplit, List.head?_cons, Option.some.injEq] at hhead
  rw [hsplit, List.tail_cons] at htail
  rw [hparts, hsplit, List.mem_cons, eq_comm, hhead, htail, String.toList_eq_nil_iff]
  constructor
  · rintro ⟨hnonempty, hstart, hend, hadjacent⟩
    simp [hnonempty, hstart, hend, hadjacent]
  · intro h
    simp only [not_or] at h
    exact ⟨h.1.1, h.1.2, h.2.1, h.2.2⟩

/-- The part at this index is the first of the text that is empty. -/
def FirstEmptyPart (text : String) (index : Nat) : Prop :=
  ∃ parts, IsCutInto text parts ∧ parts[index]? = some "" ∧
    ∀ earlier < index, parts[earlier]? ≠ some ""

theorem IsCutInto.firstEmptyPart_iff {text : String} {parts : List String}
    (hcut : IsCutInto text parts) {index : Nat} :
    FirstEmptyPart text index ↔ parts.findIdx? (· = "") = some index := by
  have hparts : FirstEmptyPart text index ↔ parts[index]? = some "" ∧
      ∀ earlier < index, parts[earlier]? ≠ some "" := by
    constructor
    · rintro ⟨others, hother, hfirst⟩
      rwa [isCutInto_iff.mp hother, ← isCutInto_iff.mp hcut] at hfirst
    · intro hfirst
      exact ⟨parts, hcut, hfirst⟩
  rw [hparts, List.findIdx?_eq_some_iff_getElem, List.getElem?_eq_some_iff]
  constructor
  · rintro ⟨⟨hlt, hempty⟩, hbefore⟩
    refine ⟨hlt, decide_eq_true hempty, ?_⟩
    intro earlier hearlier htrue
    refine hbefore earlier hearlier ?_
    rw [List.getElem?_eq_getElem (Nat.lt_trans hearlier hlt), of_decide_eq_true htrue]
  · rintro ⟨hlt, hempty, hbefore⟩
    refine ⟨⟨hlt, of_decide_eq_true hempty⟩, ?_⟩
    intro earlier hearlier hsome
    obtain ⟨_, hpart⟩ := List.getElem?_eq_some_iff.mp hsome
    exact hbefore earlier hearlier (decide_eq_true hpart)

/-- The texts can be the segments of a path. -/
structure AreSegments (texts : List String) : Prop where
  nonempty : texts ≠ []
  nonempty_of_mem : ∀ text ∈ texts, text ≠ ""
  undotted_of_mem : ∀ text ∈ texts, '.' ∉ text.toList

namespace Path

variable {path above below : Path} {key text : String} {texts parts : List String}

theorem texts_inj : above.texts = below.texts ↔ above = below := by
  rw [texts, texts, List.map_inj_right fun _ _ => Segment.ext]
  exact ⟨ext, congrArg segments⟩

theorem areSegments_texts (path : Path) : AreSegments path.texts where
  nonempty := path.texts_ne_nil
  nonempty_of_mem := List.forall_mem_map.mpr fun segment _ => segment.nonempty
  undotted_of_mem := List.forall_mem_map.mpr fun segment _ => segment.not_mem_text

theorem exists_ofTexts_iff : (∃ path, ofTexts texts = .ok path) ↔ AreSegments texts := by
  simp only [ofTexts_eq_ok_iff]
  constructor
  · rintro ⟨path, rfl⟩
    exact path.areSegments_texts
  · rintro ⟨hnonempty, hnot_empty, hundotted⟩
    have htexts := map_text_filterMap_ofText? fun text hmem =>
      ⟨hnot_empty text hmem, isDotted_eq_false_iff.mpr (hundotted text hmem)⟩
    refine ⟨⟨texts.filterMap Segment.ofText?, ?_⟩, htexts⟩
    intro hnone
    rw [hnone] at htexts
    exact hnonempty htexts.symm

theorem parse_eq_ofTexts (hkey : key ≠ "") (hcut : IsCutInto key parts) :
    parse key = ofTexts parts := by
  rw [parse, if_neg hkey, isCutInto_iff.mp hcut]

/-- A key is read as the path that is written as it, and as no other. -/
theorem parse_eq_ok_iff : parse key = .ok path ↔ path.dotted = key := by
  constructor
  · intro h
    rw [parse] at h
    split at h
    next => cases h
    next =>
      have hcut : IsCutInto key _ := isCutInto_iff.mpr rfl
      rw [dotted, ofTexts_eq_ok_iff.mp h]
      exact hcut.joined
  · rintro rfl
    exact path.parse_dotted

theorem exists_parse_iff : (∃ path, parse key = .ok path) ↔ IsKey key := by
  have hcut : IsCutInto key _ := isCutInto_iff.mpr rfl
  by_cases hkey : key = ""
  · subst hkey
    constructor
    · rintro ⟨path, h⟩
      cases h
    · intro h
      exact absurd rfl h.nonempty
  · rw [parse_eq_ofTexts hkey hcut, exists_ofTexts_iff, hcut.isKey_iff]
    exact ⟨AreSegments.nonempty_of_mem, fun h => ⟨hcut.nonempty, h, hcut.undotted⟩⟩

theorem ofTexts_of_findIdx? {index : Nat} (hfirst : texts.findIdx? (· = "") = some index) :
    ofTexts texts = .error (.emptySegment (joinDots texts) index) := by
  have hnonempty : ¬ texts.isEmpty = true := by
    rintro hnil
    rw [List.isEmpty_iff.mp hnil] at hfirst
    cases hfirst
  rw [ofTexts, if_neg hnonempty, hfirst]

/-- A key that is no path is empty, or its first empty part is reported. -/
theorem parse_eq_error_iff {error : PathError} : parse key = .error error ↔
    key = "" ∧ error = .empty ∨
      key ≠ "" ∧ ∃ index, FirstEmptyPart key index ∧ error = .emptySegment key index := by
  by_cases hkey : key = ""
  · subst hkey
    simp [parse, eq_comm]
  · have hcut : IsCutInto key _ := isCutInto_iff.mpr rfl
    rw [parse_eq_ofTexts hkey hcut]
    simp only [hkey, hcut.firstEmptyPart_iff, false_and, false_or, ne_eq, not_false_eq_true,
      true_and]
    cases hfirst : (List.map String.ofList (splitDots key.toList)).findIdx? (· = "") with
    | some index =>
        rw [ofTexts_of_findIdx? hfirst, hcut.joined]
        simp [eq_comm]
    | none =>
        rw [List.findIdx?_eq_none_iff] at hfirst
        have hsegments : AreSegments _ := ⟨hcut.nonempty,
          fun text hmem => of_decide_eq_false (hfirst text hmem), hcut.undotted⟩
        obtain ⟨path, hpath⟩ := exists_ofTexts_iff.mpr hsegments
        simp [hpath]

theorem child_eq_ok_iff : path.child text = .ok below ↔ below.texts = path.texts ++ [text] := by
  rw [child]
  split
  next hempty =>
    subst hempty
    constructor
    · intro h
      cases h
    · intro h
      have hmem : "" ∈ below.texts := by simp [h]
      exact absurd rfl (below.areSegments_texts.nonempty_of_mem _ hmem)
  next hnonempty =>
    split
    next segment hsegment =>
      obtain rfl := Segment.ofText?_eq_some_iff.mp hsegment
      rw [Except.ok.injEq, ← texts_inj, eq_comm, texts, texts, List.map_append]
      rfl
    next hnone =>
      constructor
      · intro h
        cases h
      · intro h
        have hmem : text ∈ below.texts := by simp [h]
        have hdotted := (Segment.ofText?_eq_none_iff.mp hnone).resolve_left hnonempty
        have hundotted := below.areSegments_texts.undotted_of_mem _ hmem
        rw [← isDotted_eq_false_iff, hdotted] at hundotted
        cases hundotted

theorem parent?_eq_some_iff : path.parent? = some above ↔ above.texts = path.texts.dropLast := by
  rw [parent?, ofSegments?_eq_some_iff, texts, texts, ← List.map_dropLast, eq_comm,
    List.map_inj_right fun _ _ => Segment.ext]

theorem mem_ancestors_iff :
    above ∈ path.ancestors ↔ above.texts <+: path.texts ∧ above.texts ≠ path.texts := by
  have hself : path ∉ path.ancestors := fun hmem =>
    (List.nodup_append.mp path.nodup_ancestors_append_self).2.2 path hmem path
      (List.mem_singleton_self path) rfl
  rw [← leadsTo_iff_texts, ← mem_ancestors_append_self_iff, List.mem_append, List.mem_singleton, Ne,
    texts_inj]
  constructor
  · intro hmem
    refine ⟨Or.inl hmem, ?_⟩
    rintro rfl
    exact hself hmem
  · rintro ⟨hmem, hne⟩
    exact hmem.resolve_right hne

theorem ofJson_eq_ok_iff {json : Json} : ofJson json = .ok path ↔ json = path.toJson := by
  cases json with
  | string key =>
      rw [ofJson, mapError_eq_ok_iff, parse_eq_ok_iff, toJson, Json.string.injEq, eq_comm]
  | null | bool _ | number _ | array _ | object _ => simp [ofJson, toJson]

/-- Paths and dotted keys are one to one. A text is read as a path just if it is a key, and then as
the one that is written as it; otherwise its first empty part is reported. Texts make up a path just
if they can be its segments, and it is the one that is read from them joined by dots. So it is for
every path there is, whether it was read from a key or from JSON, made up of texts, or found above
or below another path. -/
theorem dotted_bijection :
    (∀ key, ((∃ path, parse key = .ok path) ↔ IsKey key) ∧
      (∀ path, parse key = .ok path ↔ path.dotted = key) ∧
      ∀ error, parse key = .error error ↔ key = "" ∧ error = .empty ∨
        key ≠ "" ∧ ∃ index, FirstEmptyPart key index ∧ error = .emptySegment key index) ∧
    (∀ texts, ((∃ path, ofTexts texts = .ok path) ↔ AreSegments texts) ∧
      ∀ path, ofTexts texts = .ok path → path.texts = texts ∧ parse (joinDots texts) = .ok path) ∧
    (∀ path : Path, AreSegments path.texts ∧ parse path.dotted = .ok path ∧
      (∀ json, ofJson json = .ok path ↔ json = path.toJson) ∧
      (∀ above, path.parent? = some above ↔ above.texts = path.texts.dropLast) ∧
      (∀ above, above ∈ path.ancestors ↔
        above.texts <+: path.texts ∧ above.texts ≠ path.texts) ∧
      ∀ text below, path.child text = .ok below ↔ ofTexts (path.texts ++ [text]) = .ok below) ∧
    Function.Injective dotted := by
  refine ⟨fun key => ⟨exists_parse_iff, fun _ => parse_eq_ok_iff, fun _ => parse_eq_error_iff⟩,
    fun texts => ⟨exists_ofTexts_iff, fun path h => ?_⟩, fun path => ?_, dotted_injective⟩
  · obtain rfl := ofTexts_eq_ok_iff.mp h
    exact ⟨rfl, path.parse_dotted⟩
  · refine ⟨path.areSegments_texts, path.parse_dotted, fun _ => ofJson_eq_ok_iff,
      fun _ => parent?_eq_some_iff, fun _ => mem_ancestors_iff, fun text below => ?_⟩
    rw [child_eq_ok_iff, ofTexts_eq_ok_iff]

/-- Of two empty parts the first is reported. -/
example : parse "lamp..on." = .error (.emptySegment "lamp..on." 1) := rfl

end Path

end PropertyTree
