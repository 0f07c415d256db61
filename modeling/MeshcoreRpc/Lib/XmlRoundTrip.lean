import MeshcoreRpc.Lib.Scanning
import MeshcoreRpc.Lib.XmlText
import Mathlib.Data.List.Chain

/-!
# Reading an element back

An element that is written with proper names, without carriage returns in its
text and with no two texts side by side is the one that is read back, if every
character may occur in a document; otherwise nothing is read.
-/

namespace XmlText

open Scanning

/-! ## References -/

theorem unescape_text (c : Char) (cs : List Char) :
    unescape plainText none (escapeText c ++ cs) =
      (unescape plainText none cs).map (c :: ·) := by
  unfold escapeText
  split_ifs with hamp hlt hgt
  · subst hamp
    cases hcs : unescape plainText none cs <;> simp [unescape, reference, hcs]
  · subst hlt
    cases hcs : unescape plainText none cs <;> simp [unescape, reference, hcs]
  · subst hgt
    cases hcs : unescape plainText none cs <;> simp [unescape, reference, hcs]
  · cases hcs : unescape plainText none cs <;> simp [unescape, plainText, hamp, hlt, hcs]

theorem unescape_number {c : Char} (digits : List Char) {cs : List Char}
    (hdigits : ∀ d ∈ digits, d ≠ ';')
    (hname : reference ('#' :: digits) = some c) :
    unescape plainAttr none ('&' :: '#' :: (digits ++ ';' :: cs)) =
      (unescape plainAttr none cs).map (c :: ·) := by
  have hopen (name : List Char) : ∀ digits : List Char, (∀ d ∈ digits, d ≠ ';') →
      unescape plainAttr (some name) (digits ++ ';' :: cs) =
        (reference (name.reverse ++ digits)).bind fun c ↦
          (unescape plainAttr none cs).map (c :: ·) := by
    intro digits
    induction digits generalizing name with
    | nil =>
        intro _
        cases hcs : unescape plainAttr none cs <;>
          cases hr : reference name.reverse <;> simp [unescape, hcs, hr]
    | cons d digits ih =>
        intro h
        obtain ⟨hd, h⟩ := List.forall_mem_cons.mp h
        rw [List.cons_append, unescape, if_neg hd, ih (d :: name) h]
        simp
  have hstep := hopen ['#'] digits hdigits
  rw [List.reverse_singleton, List.singleton_append, hname] at hstep
  simpa [unescape] using hstep

theorem unescape_attr (c : Char) (cs : List Char) :
    unescape plainAttr none (escapeAttr c ++ cs) =
      (unescape plainAttr none cs).map (c :: ·) := by
  unfold escapeAttr
  split_ifs with hquot hcr hlf htab
  · subst hquot
    cases hcs : unescape plainAttr none cs <;> simp [unescape, reference, hcs]
  · subst hcr
    exact unescape_number ['1', '3'] (by simp) (by decide)
  · subst hlf
    exact unescape_number ['1', '0'] (by simp) (by decide)
  · subst htab
    exact unescape_number ['0', '9'] (by simp) (by decide)
  · unfold escapeText
    split_ifs with hamp hlt hgt
    · subst hamp
      cases hcs : unescape plainAttr none cs <;> simp [unescape, reference, hcs]
    · subst hlt
      cases hcs : unescape plainAttr none cs <;> simp [unescape, reference, hcs]
    · subst hgt
      cases hcs : unescape plainAttr none cs <;> simp [unescape, reference, hcs]
    · by_cases hspace : c = ' '
      · subst hspace
        cases hcs : unescape plainAttr none cs <;> simp [unescape, plainAttr, isBlank, hcs]
      · have hblank : isBlank c = false := by simp [isBlank, hspace, hcr, hlf, htab]
        cases hcs : unescape plainAttr none cs <;>
          simp [unescape, plainAttr, hamp, hlt, hblank, hcs]

/-- A character at a time, so for a whole text. -/
theorem unescape_flatMap {plain : Char → Option Char} {escape : Char → List Char}
    (h : ∀ c cs, unescape plain none (escape c ++ cs) =
      (unescape plain none cs).map (c :: ·)) (s : List Char) :
    unescape plain none (s.flatMap escape) = some s := by
  induction s with
  | nil => rfl
  | cons c s ih => rw [List.flatMap_cons, h, ih, Option.map_some]

/-! ## What escaping leaves out -/

theorem escapeText_open (c : Char) : ∀ d ∈ escapeText c, d ≠ '<' := by
  unfold escapeText
  split_ifs with hamp hlt hgt
  · simp
  · simp
  · simp
  · simpa using hlt

theorem escapeAttr_open (c : Char) : ∀ d ∈ escapeAttr c, d ≠ '<' ∧ d ≠ '"' := by
  unfold escapeAttr escapeText
  split_ifs with hquot hcr hlf htab hamp hlt hgt
  all_goals simp_all

theorem escapeText_return {c : Char} (h : c ≠ '\r') : ∀ d ∈ escapeText c, d ≠ '\r' := by
  unfold escapeText
  split_ifs
  all_goals simp_all

theorem escapeAttr_line (c : Char) : ∀ d ∈ escapeAttr c, d ≠ '\r' ∧ d ≠ '\n' := by
  unfold escapeAttr escapeText
  split_ifs with hquot hcr hlf htab hamp hlt hgt
  all_goals simp_all

theorem escapeText_ne_nil (c : Char) : escapeText c ≠ [] := by
  unfold escapeText
  split_ifs <;> simp

/-- A character is written so that it is found out where it may not occur. -/
theorem escapeText_legal (c : Char) : (escapeText c).all isChar = isChar c := by
  unfold escapeText
  split_ifs with hamp hlt hgt
  · subst hamp; decide
  · subst hlt; decide
  · subst hgt; decide
  · simp

theorem escapeAttr_legal (c : Char) : (escapeAttr c).all isChar = isChar c := by
  unfold escapeAttr
  split_ifs with hquot hcr hlf htab
  · subst hquot; decide
  · subst hcr; decide
  · subst hlf; decide
  · subst htab; decide
  · exact escapeText_legal c

theorem all_flatMap {escape : Char → List Char} {p : Char → Bool}
    (h : ∀ c, (escape c).all p = p c) (s : List Char) : (s.flatMap escape).all p = s.all p := by
  induction s with
  | nil => rfl
  | cons c s ih => rw [List.flatMap_cons, List.all_append, List.all_cons, h, ih]

/-! ## Names -/

def IsName (s : String) : Prop :=
  ∃ c cs, s.toList = c :: cs ∧ isNameStart c = true ∧ ∀ d ∈ cs, isNameChar d = true

theorem inRanges_iff {ranges : List (ℕ × ℕ)} {c : Char} :
    inRanges ranges c = true ↔ ∃ r ∈ ranges, r.1 ≤ c.toNat ∧ c.toNat ≤ r.2 := by
  simp [inRanges]

theorem inRanges_append {a b : List (ℕ × ℕ)} {c : Char} :
    inRanges (a ++ b) c = (inRanges a c || inRanges b c) := by
  simp [inRanges]

theorem isNameStart_isNameChar {c : Char} (h : isNameStart c = true) : isNameChar c = true := by
  rw [isNameChar, inRanges_append, ← isNameStart, h, Bool.or_true]

/-- Every range of the characters of a name is inside one of those of a document. -/
theorem isNameChar_isChar {c : Char} (h : isNameChar c = true) : isChar c = true := by
  obtain ⟨r, hr, hlo, hhi⟩ := inRanges_iff.mp h
  have hinside : ∀ r ∈ [(0x2D, 0x2E), (0x30, 0x39), (0xB7, 0xB7), (0x300, 0x36F),
      (0x203F, 0x2040)] ++ nameStartRanges,
      ∃ w ∈ [(0x9, 0xA), (0xD, 0xD), (0x20, 0xD7FF), (0xE000, 0xFFFD), (0x10000, 0x10FFFF)],
        w.1 ≤ r.1 ∧ r.2 ≤ w.2 := by decide
  obtain ⟨w, hw, hwlo, hwhi⟩ := hinside r hr
  exact inRanges_iff.mpr ⟨w, hw, hwlo.trans hlo, hhi.trans hwhi⟩

theorem IsName.isNameChar {s : String} (h : IsName s) : ∀ c ∈ s.toList, isNameChar c = true := by
  obtain ⟨c, cs, hs, hc, hcs⟩ := h
  rw [hs]
  exact List.forall_mem_cons.mpr ⟨isNameStart_isNameChar hc, hcs⟩

theorem IsName.legal {s : String} (h : IsName s) : s.toList.all isChar = true :=
  List.all_eq_true.mpr fun c hc ↦ isNameChar_isChar (h.isNameChar c hc)

theorem IsName.line {s : String} (h : IsName s) : ∀ c ∈ s.toList, c ≠ '\r' ∧ c ≠ '\n' := by
  intro c hc
  have hname := h.isNameChar c hc
  constructor
  · rintro rfl
    exact absurd hname (by decide)
  · rintro rfl
    exact absurd hname (by decide)

theorem scanName_append {s : String} (h : IsName s) {rest : List Char}
    (hrest : Stops isNameChar rest) : scanName (s.toList ++ rest) = some (s, rest) := by
  obtain ⟨c, cs, hs, hc, hcs⟩ := h
  rw [hs, List.cons_append, scanName, if_pos hc, takeWhile_stops hcs hrest,
    dropWhile_stops hcs hrest, ← hs, String.ofList_toList]

/-- No name begins with a blank or with one of the marks of a tag. -/
theorem IsName.head {s : String} (h : IsName s) :
    ∃ c cs, s.toList = c :: cs ∧ isBlank c = false ∧ c ≠ '/' ∧ c ≠ '>' := by
  obtain ⟨c, cs, hs, hc, -⟩ := h
  refine ⟨c, cs, hs, ?_, ?_, ?_⟩
  · rw [Bool.eq_false_iff]
    intro hblank
    simp only [isBlank, Bool.or_eq_true, decide_eq_true_eq] at hblank
    rcases hblank with ((rfl | rfl) | rfl) | rfl <;> exact absurd hc (by decide)
  · rintro rfl
    exact absurd hc (by decide)
  · rintro rfl
    exact absurd hc (by decide)

theorem skip_of_stops {cs : List Char} (h : Stops isBlank cs) : skip cs = cs := by
  cases cs with
  | nil => rfl
  | cons c cs => rw [skip, List.dropWhile_cons, stops_cons.mp h, if_neg (by simp)]

/-! ## Attributes -/

theorem scanValue_append (v : String) (rest : List Char) :
    scanValue ('"' :: (v.toList.flatMap escapeAttr ++ '"' :: rest)) = some (v, rest) := by
  have hquote : ∀ c ∈ v.toList.flatMap escapeAttr, decide (c ≠ '"') = true := by
    intro c hc
    obtain ⟨d, -, hd⟩ := List.mem_flatMap.mp hc
    exact decide_eq_true (escapeAttr_open d c hd).2
  have hstop : Stops (fun c ↦ decide (c ≠ '"')) ('"' :: rest) := stops_cons.mpr (by simp)
  rw [scanValue, if_pos (.inl rfl), dropWhile_stops hquote hstop, takeWhile_stops hquote hstop,
    unescape_flatMap unescape_attr]
  simp

theorem scanAttr_append {kv : String × String} (h : IsName kv.1) (rest : List Char) :
    scanAttr (kv.1.toList ++ '=' :: '"' :: (kv.2.toList.flatMap escapeAttr ++ '"' :: rest)) =
      some (kv, rest) := by
  have hstop : Stops isNameChar
      ('=' :: '"' :: (kv.2.toList.flatMap escapeAttr ++ '"' :: rest)) :=
    stops_cons.mpr (by decide)
  have hskip (c : Char) (hc : isBlank c = false) (cs : List Char) : skip (c :: cs) = c :: cs :=
    skip_of_stops (stops_cons.mpr hc)
  simp [scanAttr, scanName_append h hstop, hskip '=' (by decide), hskip '"' (by decide),
    scanValue_append]

theorem attrText_append (kv : String × String) (rest : List Char) :
    attrText kv ++ rest =
      ' ' :: (kv.1.toList ++ '=' :: '"' :: (kv.2.toList.flatMap escapeAttr ++ '"' :: rest)) := by
  simp [attrText]

/-- The blank before the end of an empty element belongs to no attribute. -/
theorem scanAttrs_append {kvs : List (String × String)} (hnames : ∀ kv ∈ kvs, IsName kv.1)
    (hkeys : (kvs.map Prod.fst).Nodup) {close after : List Char} {c : Char}
    (hclose : skip close = c :: after) (hc : c = '/' ∨ c = '>') {n : ℕ} (hn : kvs.length < n) :
    scanAttrs n (kvs.flatMap attrText ++ close) = some (kvs, c :: after) := by
  induction kvs generalizing n with
  | nil =>
      obtain _ | n := n
      · simp at hn
      · simp [scanAttrs, hclose, hc]
  | cons kv kvs ih =>
      obtain _ | n := n
      · simp at hn
      · obtain ⟨hkv, hnames⟩ := List.forall_mem_cons.mp hnames
        obtain ⟨hfresh, hkeys⟩ := List.nodup_cons.mp hkeys
        have hlater := ih hnames hkeys (n := n) (by simpa using hn)
        obtain ⟨d, ds, hname, hblank, hslash, hgt⟩ := hkv.head
        have htext := attrText_append kv (kvs.flatMap attrText ++ close)
        have hskip : skip (attrText kv ++ (kvs.flatMap attrText ++ close)) =
            kv.1.toList ++ '=' :: '"' ::
              (kv.2.toList.flatMap escapeAttr ++ '"' :: (kvs.flatMap attrText ++ close)) := by
          rw [htext, skip, List.dropWhile_cons, if_pos (by decide)]
          exact skip_of_stops (by rw [hname]; exact stops_cons.mpr hblank)
        have hmoved : skip (attrText kv ++ (kvs.flatMap attrText ++ close)) ≠
            attrText kv ++ (kvs.flatMap attrText ++ close) := by
          rw [hskip, htext]
          intro heq
          exact absurd (congrArg List.length heq) (by simp)
        have hattr := scanAttr_append hkv (kvs.flatMap attrText ++ close)
        rw [hname, List.cons_append] at hskip hattr
        rw [hskip] at hmoved
        rw [List.flatMap_cons, List.append_assoc, scanAttrs, hskip]
        dsimp only
        rw [if_neg (by simp [hslash, hgt]), if_neg hmoved, hattr]
        simp [hlater, hfresh]

/-! ## Elements -/

def Node.isElement : Node → Bool
  | text _ => false
  | element .. => true

/-- The element is written so that it can be read back; it nests at most so deeply. -/
def Node.Fits : ℕ → Node → Prop
  | _, text s => s ≠ "" ∧ ∀ c ∈ s.toList, c ≠ '\r'
  | 0, element _ _ _ => False
  | depth + 1, element tag attrs content =>
    IsName tag ∧ (∀ kv ∈ attrs, IsName kv.1) ∧ (attrs.map Prod.fst).Nodup ∧
      content.IsChain (fun x y ↦ x.isElement ∨ y.isElement) ∧ ∀ x ∈ content, x.Fits depth

theorem Node.fits_text {depth : ℕ} {s : String} :
    (text s).Fits depth ↔ s ≠ "" ∧ ∀ c ∈ s.toList, c ≠ '\r' := by
  cases depth <;> rfl

theorem Node.Fits.mono {d e : ℕ} {x : Node} (h : x.Fits d) (hde : d ≤ e) : x.Fits e := by
  induction d generalizing x e with
  | zero =>
      cases x with
      | text s => exact fits_text.mpr (fits_text.mp h)
      | element tag attrs content => exact h.elim
  | succ d ih =>
      cases x with
      | text s => exact fits_text.mpr (fits_text.mp h)
      | element tag attrs content =>
          obtain ⟨e, rfl⟩ : ∃ k, e = k + 1 := ⟨e - 1, by omega⟩
          obtain ⟨htag, hnames, hkeys, hchain, hcontent⟩ := h
          exact ⟨htag, hnames, hkeys, hchain, fun x hx ↦ ih (hcontent x hx) (by omega)⟩

theorem Node.chars_element (tag : String) (attrs : List (String × String)) (content : List Node) :
    ∃ cs, (element tag attrs content).chars = '<' :: (tag.toList ++ cs) := by
  cases content <;> exact ⟨_, by rw [Node.chars, List.append_assoc]⟩

theorem Node.contentChars_eq (content : List Node) :
    contentChars content = content.flatMap Node.chars := by
  induction content with
  | nil => rfl
  | cons x xs ih => rw [contentChars, ih, List.flatMap_cons]

/-- The text of an element, in its two forms. -/
theorem Node.chars_cases (tag : String) (attrs : List (String × String)) (content : List Node) :
    (element tag attrs content).chars =
      '<' :: (tag.toList ++ (attrs.flatMap attrText ++
        if content = [] then [' ', '/', '>']
        else '>' :: (contentChars content ++ '<' :: '/' :: (tag.toList ++ ['>'])))) := by
  cases content <;> simp [chars, contentChars]

/-- No element nests deeper than its text is long. -/
theorem Node.Fits.length {d : ℕ} {x : Node} (h : x.Fits d) : x.Fits x.chars.length := by
  induction d generalizing x with
  | zero =>
      cases x with
      | text s => exact fits_text.mpr (fits_text.mp h)
      | element tag attrs content => exact h.elim
  | succ d ih =>
      cases x with
      | text s => exact fits_text.mpr (fits_text.mp h)
      | element tag attrs content =>
          obtain ⟨htag, hnames, hkeys, hchain, hcontent⟩ := h
          obtain ⟨cs, hcs⟩ := chars_element tag attrs content
          rw [hcs, List.length_cons]
          refine ⟨htag, hnames, hkeys, hchain, fun x hx ↦ (ih (hcontent x hx)).mono ?_⟩
          have hpart : x.chars.length ≤ (contentChars content).length := by
            obtain ⟨before, after, rfl⟩ := List.append_of_mem hx
            simp only [contentChars_eq, List.flatMap_append, List.flatMap_cons, List.length_append]
            omega
          have htext := chars_cases tag attrs content
          rw [hcs, if_neg (List.ne_nil_of_mem hx)] at htext
          have hlen := congrArg List.length htext
          simp only [List.length_cons, List.length_append] at hlen ⊢
          omega

theorem scanText_append {s : String} {rest : List Char}
    (hrest : Stops (fun c ↦ decide (c ≠ '<')) rest) :
    ((Node.text s).chars ++ rest).takeWhile (fun c ↦ decide (c ≠ '<')) = (Node.text s).chars ∧
      ((Node.text s).chars ++ rest).dropWhile (fun c ↦ decide (c ≠ '<')) = rest := by
  have hopen : ∀ c ∈ (Node.text s).chars, decide (c ≠ '<') = true := by
    intro c hc
    obtain ⟨d, -, hd⟩ := List.mem_flatMap.mp (by simpa only [Node.chars] using hc)
    exact decide_eq_true (escapeText_open d c hd)
  exact ⟨takeWhile_stops hopen hrest, dropWhile_stops hopen hrest⟩

theorem Node.chars_text_head {s : String} (h : s ≠ "") :
    ∃ c cs, (text s).chars = c :: cs ∧ c ≠ '<' := by
  have hne : (text s).chars ≠ [] := by
    rw [chars, Ne, List.flatMap_eq_nil_iff]
    intro hnil
    obtain ⟨c, cs, hs⟩ := List.exists_cons_of_ne_nil
      fun hs ↦ h (String.toList_injective (hs.trans rfl))
    exact escapeText_ne_nil c (hnil c (by rw [hs]; exact List.mem_cons_self))
  obtain ⟨c, cs, hcs⟩ := List.exists_cons_of_ne_nil hne
  refine ⟨c, cs, hcs, ?_⟩
  obtain ⟨d, -, hd⟩ := List.mem_flatMap.mp
    (show c ∈ s.toList.flatMap escapeText by rw [chars] at hcs; rw [hcs]; exact List.mem_cons_self)
  exact escapeText_open d c hd

/-- The nodes of a content one after the other, each with what the next one
needs of its front. -/
theorem scanContent_append {scan : List Char → Option (Node × List Char)} {d : ℕ}
    {content : List Node} (hfits : ∀ x ∈ content, x.Fits d)
    (hchain : content.IsChain fun x y ↦ x.isElement ∨ y.isElement)
    (hscan : ∀ x ∈ content, x.isElement = true → ∀ rest, scan (x.chars ++ rest) = some (x, rest))
    {n : ℕ} (hn : content.length < n) (rest : List Char) :
    scanContent scan n (Node.contentChars content ++ '<' :: '/' :: rest) =
      some (content, rest) := by
  induction content generalizing n with
  | nil =>
      obtain _ | n := n
      · simp at hn
      · simp [scanContent, Node.contentChars]
  | cons x xs ih =>
      obtain _ | n := n
      · simp at hn
      · obtain ⟨hx, hxs⟩ := List.forall_mem_cons.mp hfits
        have hlater := ih hxs hchain.tail (fun y hy ↦ hscan y (List.mem_cons_of_mem _ hy))
          (n := n) (by simpa using hn)
        rw [Node.contentChars, List.append_assoc]
        cases x with
        | element tag attrs content =>
            obtain ⟨cs, hcs⟩ := Node.chars_element tag attrs content
            have hread := hscan _ List.mem_cons_self rfl
              (Node.contentChars xs ++ '<' :: '/' :: rest)
            obtain ⟨c, name, hname, -, hslash, -⟩ : ∃ c name, tag.toList = c :: name ∧
                isBlank c = false ∧ c ≠ '/' ∧ c ≠ '>' := by
              obtain _ | d := d
              · exact hx.elim
              · exact hx.1.head
            rw [hcs, hname] at hread ⊢
            simp only [List.cons_append, List.append_assoc] at hread ⊢
            simp [scanContent, hslash, hread, hlater]
        | text s =>
            obtain ⟨c, cs, hcs, hc⟩ := Node.chars_text_head (Node.fits_text.mp hx).1
            have hstop : Stops (fun c ↦ decide (c ≠ '<'))
                (Node.contentChars xs ++ '<' :: '/' :: rest) := by
              cases xs with
              | nil => exact stops_cons.mpr (by simp)
              | cons y ys =>
                  have hy : y.isElement = true := by
                    simpa [Node.isElement] using (List.isChain_cons_cons.mp hchain).1
                  cases y with
                  | text s => cases hy
                  | element tag attrs content =>
                      obtain ⟨cs, hcs⟩ := Node.chars_element tag attrs content
                      rw [Node.contentChars, hcs]
                      exact stops_cons.mpr (by simp)
            obtain ⟨htake, hdrop⟩ := scanText_append (s := s) hstop
            have hread : unescape plainText none (Node.text s).chars = some s.toList :=
              unescape_flatMap unescape_text s.toList
            rw [hcs] at htake hdrop hread ⊢
            rw [List.cons_append] at htake hdrop ⊢
            rw [scanContent.eq_def]
            dsimp only
            rw [if_neg hc, htake, hdrop, hread, hlater]
            simp

theorem Node.length_contentChars {d : ℕ} {content : List Node} (h : ∀ x ∈ content, x.Fits d) :
    content.length ≤ (contentChars content).length := by
  induction content with
  | nil => exact Nat.zero_le _
  | cons x xs ih =>
      obtain ⟨hx, hxs⟩ := List.forall_mem_cons.mp h
      have hpos : 0 < x.chars.length := by
        cases x with
        | text s =>
            obtain ⟨c, cs, hcs, -⟩ := chars_text_head (fits_text.mp hx).1
            rw [hcs, List.length_cons]
            omega
        | element tag attrs content =>
            obtain ⟨cs, hcs⟩ := chars_element tag attrs content
            rw [hcs, List.length_cons]
            omega
      have hlater := ih hxs
      simp only [contentChars, List.length_cons, List.length_append]
      omega

theorem length_attrs (attrs : List (String × String)) :
    attrs.length ≤ (attrs.flatMap attrText).length := by
  induction attrs with
  | nil => exact Nat.zero_le _
  | cons kv attrs ih =>
      simp only [List.flatMap_cons, List.length_append, List.length_cons, attrText]
      omega

/-- The start tag of an element up to what closes it. -/
theorem scanElement_open {tag : String} {attrs : List (String × String)} (htag : IsName tag)
    (hnames : ∀ kv ∈ attrs, IsName kv.1) (hkeys : (attrs.map Prod.fst).Nodup)
    (close : List Char) {after : List Char} {c : Char} (hclose : skip close = c :: after)
    (hc : c = '/' ∨ c = '>') (hstop : Stops isNameChar close) (depth : ℕ) :
    scanElement (depth + 1) ('<' :: (tag.toList ++ (attrs.flatMap attrText ++ close))) =
      scanRest (scanElement depth) tag attrs (c :: after) := by
  have hcount : attrs.length < (attrs.flatMap attrText ++ close).length + 1 := by
    have := length_attrs attrs
    rw [List.length_append]
    omega
  have hopen : Stops isNameChar (attrs.flatMap attrText ++ close) := by
    cases attrs with
    | nil => exact hstop
    | cons kv attrs => exact stops_cons.mpr (by decide)
  have hattrs := scanAttrs_append hnames hkeys hclose hc hcount
  rw [scanElement, if_pos rfl, scanName_append htag hopen]
  simp only [Option.bind_eq_bind, Option.bind_some, hattrs]

theorem scanEnd_append {tag : String} (h : IsName tag) (rest : List Char) :
    scanEnd tag (tag.toList ++ '>' :: rest) = some rest := by
  have hskip : skip ('>' :: rest) = '>' :: rest := skip_of_stops (stops_cons.mpr (by decide))
  have hstop : Stops isNameChar ('>' :: rest) := stops_cons.mpr (by decide)
  simp [scanEnd, scanName_append h hstop, hskip]

/-- An element is read to its end, whatever follows it. -/
theorem scanElement_append (depth : ℕ) : ∀ x : Node, x.Fits depth → x.isElement = true →
    ∀ rest, scanElement depth (x.chars ++ rest) = some (x, rest) := by
  induction depth with
  | zero =>
      intro x hx helement
      cases x with
      | text s => cases helement
      | element tag attrs content => exact hx.elim
  | succ depth ih =>
      intro x hx helement rest
      cases x with
      | text s => cases helement
      | element tag attrs content =>
          obtain ⟨htag, hnames, hkeys, hchain, hcontent⟩ := hx
          rw [Node.chars_cases, List.cons_append, List.append_assoc, List.append_assoc]
          split_ifs with hnil
          · subst hnil
            have hskip : skip (' ' :: '/' :: '>' :: rest) = '/' :: '>' :: rest := rfl
            have hopen := scanElement_open htag hnames hkeys (' ' :: '/' :: '>' :: rest) hskip
              (.inl rfl) (stops_cons.mpr (by decide)) depth
            simpa [scanRest] using hopen
          · have hlen := Node.length_contentChars hcontent
            have hscan := scanContent_append hcontent hchain
              (fun y hy hyelement ↦ ih y (hcontent y hy) hyelement)
              (n := (Node.contentChars content ++ '<' :: '/' :: (tag.toList ++ '>' :: rest)).length
                + 1) (by rw [List.length_append]; omega) (tag.toList ++ '>' :: rest)
            have hopen := scanElement_open htag hnames hkeys
              ('>' :: (Node.contentChars content ++ '<' :: '/' :: (tag.toList ++ '>' :: rest)))
              (c := '>') rfl (.inr rfl) (stops_cons.mpr (by decide)) depth
            rw [scanRest.eq_def] at hopen
            dsimp only at hopen
            rw [if_pos rfl, hscan] at hopen
            simpa [scanEnd_append htag] using hopen

/-! ## Documents -/

mutual

/-- Every character of the texts and values may occur in a document. -/
def Node.legal : Node → Bool
  | .text s => s.toList.all isChar
  | .element _ attrs content =>
    attrs.all (fun kv ↦ kv.2.toList.all isChar) && Node.contentLegal content

def Node.contentLegal : List Node → Bool
  | [] => true
  | x :: xs => x.legal && Node.contentLegal xs

end

theorem attrText_legal {kv : String × String} (h : IsName kv.1) :
    (attrText kv).all isChar = kv.2.toList.all isChar := by
  have hspace : isChar ' ' = true := by decide
  have heq : isChar '=' = true := by decide
  have hquote : isChar '"' = true := by decide
  simp only [attrText, List.all_cons, List.all_append, List.all_nil, h.legal, hspace, heq, hquote,
    all_flatMap escapeAttr_legal, Bool.true_and, Bool.and_true]

theorem attrs_legal {attrs : List (String × String)} (h : ∀ kv ∈ attrs, IsName kv.1) :
    (attrs.flatMap attrText).all isChar = attrs.all fun kv ↦ kv.2.toList.all isChar := by
  induction attrs with
  | nil => rfl
  | cons kv attrs ih =>
      obtain ⟨hkv, hattrs⟩ := List.forall_mem_cons.mp h
      rw [List.flatMap_cons, List.all_append, attrText_legal hkv, ih hattrs, List.all_cons]

/-- The illegal characters of an element stay in its text. -/
theorem Node.Fits.all_isChar {d : ℕ} {x : Node} (h : x.Fits d) :
    x.chars.all isChar = x.legal := by
  induction d generalizing x with
  | zero =>
      cases x with
      | text s => exact all_flatMap escapeText_legal s.toList
      | element tag attrs content => exact h.elim
  | succ d ih =>
      cases x with
      | text s => exact all_flatMap escapeText_legal s.toList
      | element tag attrs content =>
          obtain ⟨htag, hnames, -, -, hcontent⟩ := h
          have hlegal : (contentChars content).all isChar = contentLegal content := by
            clear hnames
            induction content with
            | nil => rfl
            | cons x xs hxs =>
                obtain ⟨hx, hrest⟩ := List.forall_mem_cons.mp hcontent
                rw [contentChars, List.all_append, ih hx, hxs hrest, contentLegal]
          have hopen : isChar '<' = true := by decide
          have hclose : isChar '>' = true := by decide
          have hslash : isChar '/' = true := by decide
          have hspace : isChar ' ' = true := by decide
          rw [chars_cases, legal, ← hlegal]
          split_ifs with hnil
          · simp [hnil, contentChars, htag.legal, attrs_legal hnames, hopen, hclose, hslash, hspace]
          · simp [htag.legal, attrs_legal hnames, hopen, hclose, hslash]

mutual

/-- The characters of the texts inside an element. -/
def Node.textChars : Node → List Char
  | .text s => s.toList
  | .element _ _ content => Node.contentText content

def Node.contentText : List Node → List Char
  | [] => []
  | x :: xs => x.textChars ++ Node.contentText xs

end

theorem attrText_line {kv : String × String} (h : IsName kv.1) :
    ∀ c ∈ attrText kv, c ≠ '\r' ∧ c ≠ '\n' := by
  have hvalue : ∀ c ∈ kv.2.toList.flatMap escapeAttr, c ≠ '\r' ∧ c ≠ '\n' := by
    intro c hc
    obtain ⟨d, -, hd⟩ := List.mem_flatMap.mp hc
    exact escapeAttr_line d c hd
  intro c hc
  simp only [attrText, List.mem_cons, List.mem_append, List.not_mem_nil, or_false] at hc
  rcases hc with rfl | hc | rfl | rfl | hc | rfl
  · simp
  · exact h.line c hc
  · simp
  · simp
  · exact hvalue c hc
  · simp

theorem Node.contentText_of_mem {content : List Node} {c : Char}
    (h : ∀ x ∈ content, c ∈ x.chars → c = '\n' ∧ c ∈ x.textChars)
    (hc : c ∈ contentChars content) : c = '\n' ∧ c ∈ contentText content := by
  induction content with
  | nil => simp [contentChars] at hc
  | cons x xs ih =>
      obtain ⟨hx, hxs⟩ := List.forall_mem_cons.mp h
      rw [contentText]
      rcases List.mem_append.mp (show c ∈ x.chars ++ contentChars xs from hc) with hc | hc
      · exact (hx hc).imp id (List.mem_append_left _)
      · exact (ih hxs hc).imp id (List.mem_append_right _)

theorem escapeText_line {c e : Char} (hc : c ∈ escapeText e) (hline : c = '\r' ∨ c = '\n') :
    e = c := by
  unfold escapeText at hc
  split_ifs at hc
  · rcases hline with rfl | rfl <;> simp at hc
  · rcases hline with rfl | rfl <;> simp at hc
  · rcases hline with rfl | rfl <;> simp at hc
  · exact (List.mem_singleton.mp hc).symm

/-- Only a text of an element can end a line, and only with a line feed. -/
theorem Node.Fits.line {d : ℕ} {x : Node} (h : x.Fits d) {c : Char} (hc : c ∈ x.chars)
    (hline : c = '\r' ∨ c = '\n') : c = '\n' ∧ c ∈ x.textChars := by
  have htext {s : String} (hs : ∀ c ∈ s.toList, c ≠ '\r') (hc : c ∈ (text s).chars) :
      c = '\n' ∧ c ∈ (text s).textChars := by
    obtain ⟨e, he, hce⟩ := List.mem_flatMap.mp
      (show c ∈ s.toList.flatMap escapeText by rwa [chars] at hc)
    have hne := escapeText_return (hs e he) c hce
    have heq := escapeText_line hce hline
    exact ⟨hline.resolve_left hne, by rw [textChars]; exact heq ▸ he⟩
  induction d generalizing x with
  | zero =>
      cases x with
      | text s => exact htext (fits_text.mp h).2 hc
      | element tag attrs content => exact h.elim
  | succ d ih =>
      cases x with
      | text s => exact htext (fits_text.mp h).2 hc
      | element tag attrs content =>
          obtain ⟨htag, hnames, -, -, hcontent⟩ := h
          have hend (hne : c ≠ '\r' ∧ c ≠ '\n') : c = '\n' ∧ c ∈ contentText content :=
            (hline.elim hne.1 hne.2).elim
          rw [textChars]
          rw [chars_cases] at hc
          rcases List.mem_cons.mp hc with rfl | hc
          · exact hend (by simp)
          rcases List.mem_append.mp hc with hc | hc
          · exact hend (htag.line c hc)
          rcases List.mem_append.mp hc with hc | hc
          · obtain ⟨kv, hkv, hc⟩ := List.mem_flatMap.mp hc
            exact hend (attrText_line (hnames kv hkv) c hc)
          split_ifs at hc with hnil
          · simp only [List.mem_cons, List.not_mem_nil, or_false] at hc
            rcases hc with rfl | rfl | rfl <;> exact hend (by simp)
          simp only [List.mem_cons, List.mem_append, List.not_mem_nil, or_false] at hc
          rcases hc with rfl | hc | rfl | rfl | hc | rfl
          · exact hend (by simp)
          · exact contentText_of_mem (fun x hx hmem ↦ ih (hcontent x hx) hmem) hc
          · exact hend (by simp)
          · exact hend (by simp)
          · exact hend (htag.line c hc)
          · exact hend (by simp)

theorem normalize_of_not_mem {cs : List Char} (h : ∀ c ∈ cs, c ≠ '\r') : normalize cs = cs := by
  induction cs with
  | nil => rfl
  | cons c cs ih =>
      obtain ⟨hc, hcs⟩ := List.forall_mem_cons.mp h
      cases cs with
      | nil => rw [normalize, if_neg hc]
      | cons d cs => rw [normalize, if_neg hc, ih hcs]

/-- A document that holds an element and nothing else but blanks is read as that
element, unless it has a character that no document may have. -/
theorem read_chars {d : ℕ} {x : Node} (hx : x.Fits d) (helement : x.isElement = true)
    (blanks : List Char) (hblanks : ∀ c ∈ blanks, c = ' ' ∨ c = '\n') :
    read (String.ofList (x.chars ++ blanks)) = if x.legal then some x else none := by
  have hreturn : ∀ c ∈ x.chars ++ blanks, c ≠ '\r' := by
    rintro c hc rfl
    rcases List.mem_append.mp hc with hc | hc
    · exact absurd (hx.line hc (.inl rfl)).1 (by decide)
    · exact absurd (hblanks _ hc) (by decide)
  have hblank : ∀ c ∈ blanks, isBlank c = true := by
    intro c hc
    rcases hblanks c hc with rfl | rfl <;> decide
  have hlegal : (x.chars ++ blanks).all isChar = x.legal := by
    have hall : blanks.all isChar = true := by
      rw [List.all_eq_true]
      intro c hc
      rcases hblanks c hc with rfl | rfl <;> decide
    rw [List.all_append, hx.all_isChar, hall, Bool.and_true]
  have hskip : skip (x.chars ++ blanks) = x.chars ++ blanks := by
    cases x with
    | text s => cases helement
    | element tag attrs content =>
        obtain ⟨cs, hcs⟩ := Node.chars_element tag attrs content
        rw [hcs]
        exact skip_of_stops (stops_cons.mpr (by decide))
  have hscan := scanElement_append _ x
    (hx.length.mono (List.sublist_append_left x.chars blanks).length_le) helement blanks
  have hend : skip blanks = [] := List.dropWhile_eq_nil_iff.mpr hblank
  rw [read, String.toList_ofList, normalize_of_not_mem hreturn, hlegal, hskip, hscan]
  dsimp only
  rw [if_pos hend]

end XmlText
