/-
The import lines by their grammar. A line without the blanks at its ends is one exactly if the word
stands in it between delimiters, or if it is one quoted text with nothing behind it but blanks and a
comment (`accepts_iff`). The search for the word tries every place, so an occurrence that no
delimiter follows hides no later one. A quoted text needs no search: it ends at the next quote, and
what is behind it starts at the first scalar that is no blank.
-/
import Repath.ImportLine
import Repath.Proofs.Text.Trim

namespace Repath.ImportLine

/-! ## The grammar -/

/-- The character is a space or a quote. -/
def Delimits (c : Char) : Prop :=
  c = ' ' ∨ c = '"' ∨ c = '\''

/-- The word stands in the text with a delimiter behind it, and at the start or behind a
delimiter. -/
def HoldsWord (t : Text) : Prop :=
  ∃ before delimiter behind, t = before ++ "import".toList ++ delimiter :: behind ∧
    Delimits delimiter ∧ (before = [] ∨ ∃ c, before.getLast? = some c ∧ Delimits c)

/-- The text is nothing, or two slashes and then no line feed. -/
def Comments (t : Text) : Prop :=
  t = [] ∨ ∃ note, t = "//".toList ++ note ∧ '\n' ∉ note

/-- The text is one quoted text, then blanks, then nothing or a comment. -/
def QuotesPath (t : Text) : Prop :=
  ∃ (quote : Char) (path blanks comment : Text), t = quote :: path ++ quote :: blanks ++ comment ∧
    (quote = '"' ∨ quote = '\'') ∧ quote ∉ path ∧ blanks.isBlank = true ∧ Comments comment

/-! ## The word -/

theorem isDelimiter_iff {c : Char} : isDelimiter c = true ↔ Delimits c := by
  simp [isDelimiter, Delimits, or_assoc]

theorem startsWithWord_iff {t : Text} : startsWithWord t = true ↔
    ∃ delimiter behind, t = word ++ delimiter :: behind ∧ Delimits delimiter := by
  unfold startsWithWord
  rw [Bool.and_eq_true, List.isPrefixOf_iff_prefix]
  constructor
  · rintro ⟨⟨behind, rfl⟩, hdelimiter⟩
    rw [List.drop_left] at hdelimiter
    cases behind with
    | nil => cases hdelimiter
    | cons c behind => exact ⟨c, behind, rfl, isDelimiter_iff.1 hdelimiter⟩
  · rintro ⟨delimiter, behind, rfl, hdelimiter⟩
    rw [List.drop_left]
    exact ⟨List.prefix_append .., isDelimiter_iff.2 hdelimiter⟩

/-- Whether the word may follow a part of a text: behind a delimiter, and behind nothing if that
counts as open. -/
def opens (isOpen : Bool) (before : Text) : Bool :=
  (before.getLast?.map isDelimiter).getD isOpen

theorem opens_cons (isOpen : Bool) (c : Char) (before : Text) :
    opens isOpen (c :: before) = opens (isDelimiter c) before := by
  rw [opens, opens, List.getLast?_cons, Option.getD_map, Option.map_some, Option.getD_some]

theorem opens_true_iff {before : Text} : opens true before = true ↔
    before = [] ∨ ∃ c, before.getLast? = some c ∧ Delimits c := by
  unfold opens
  cases h : before.getLast? with
  | none => simpa using List.getLast?_eq_none_iff.1 h
  | some c =>
    have hne : before ≠ [] := by
      rintro rfl
      cases h
    simp [hne, isDelimiter_iff]

/-- The search finds the word wherever it stands. -/
theorem hasWord_iff : ∀ {isOpen : Bool} {t : Text}, hasWord isOpen t = true ↔
    ∃ before rest, t = before ++ rest ∧ opens isOpen before = true ∧ startsWithWord rest = true
  | isOpen, [] => by
    simp [hasWord, startsWithWord, word]
  | isOpen, c :: t => by
    rw [hasWord, Bool.or_eq_true, Bool.and_eq_true, hasWord_iff]
    constructor
    · rintro (⟨hopen, hstarts⟩ | ⟨before, rest, rfl, hopens, hstarts⟩)
      · exact ⟨[], c :: t, rfl, hopen, hstarts⟩
      · exact ⟨c :: before, rest, rfl, opens_cons isOpen c before ▸ hopens, hstarts⟩
    · rintro ⟨before, rest, hsplit, hopens, hstarts⟩
      match before, hsplit with
      | [], hsplit => exact .inl ⟨hopens, hsplit ▸ hstarts⟩
      | _ :: before, hsplit =>
        obtain ⟨rfl, rfl⟩ := List.cons.inj hsplit
        exact .inr ⟨before, rest, rfl, opens_cons isOpen c before ▸ hopens, hstarts⟩

theorem hasWord_true_iff {t : Text} : hasWord true t = true ↔ HoldsWord t := by
  rw [hasWord_iff]
  constructor
  · rintro ⟨before, rest, rfl, hopens, hstarts⟩
    obtain ⟨delimiter, behind, rfl, hdelimiter⟩ := startsWithWord_iff.1 hstarts
    exact ⟨before, delimiter, behind, (List.append_assoc ..).symm, hdelimiter, opens_true_iff.1 hopens⟩
  · rintro ⟨before, delimiter, behind, rfl, hdelimiter, hopens⟩
    exact ⟨before, word ++ delimiter :: behind, List.append_assoc .., opens_true_iff.2 hopens,
      startsWithWord_iff.2 ⟨delimiter, behind, rfl, hdelimiter⟩⟩

/-! ## Quoted texts -/

theorem isComment_iff {t : Text} : isComment t = true ↔ Comments t := by
  unfold isComment
  split
  · simp [Comments]
  · rename_i note
    simp [Comments]
  · rename_i hempty hslashes
    simp only [Bool.false_eq_true, false_iff]
    rintro (rfl | ⟨note, rfl, -⟩)
    · exact hempty rfl
    · exact hslashes note rfl

/-- A comment starts with no blank. -/
theorem dropWhile_isBlankChar_of_comments {comment : Text} (h : Comments comment) :
    comment.dropWhile isBlankChar = comment := by
  obtain rfl | ⟨note, rfl, -⟩ := h
  · rfl
  · rfl

/-- A quoted text is read up to the next quote of its kind. -/
theorem isQuoted_cons (quote : Char) (rest : Text) : isQuoted (quote :: rest) = true ↔
    (quote = '"' ∨ quote = '\'') ∧ ∃ behind, rest.dropWhile (· != quote) = quote :: behind ∧
      isComment (behind.dropWhile isBlankChar) = true := by
  rw [isQuoted]
  split
  · rename_i hquote
    rw [and_iff_right (by simpa using hquote)]
    have hclosing := List.head?_dropWhile_not (· != quote) rest
    cases hdrop : rest.dropWhile (· != quote) with
    | nil => simp
    | cons c behind =>
      rw [hdrop] at hclosing
      obtain rfl : c = quote := by simpa using hclosing
      simp
  · rename_i hquote
    simp only [Bool.false_eq_true, false_iff]
    exact fun h => hquote (by simpa using h.1)

theorem isQuoted_iff {t : Text} : isQuoted t = true ↔ QuotesPath t := by
  constructor
  · intro h
    cases t with
    | nil => cases h
    | cons quote rest =>
      obtain ⟨hquote, behind, hdrop, hcomment⟩ := (isQuoted_cons quote rest).1 h
      refine ⟨quote, rest.takeWhile (· != quote), behind.takeWhile isBlankChar,
        behind.dropWhile isBlankChar, ?_, hquote, fun hmem => ?_, List.all_takeWhile,
        isComment_iff.1 hcomment⟩
      · rw [List.append_assoc, List.cons_append, List.cons_append, List.takeWhile_append_dropWhile,
          ← hdrop, List.takeWhile_append_dropWhile]
      · simpa using List.mem_takeWhile_imp hmem
  · rintro ⟨quote, path, blanks, comment, rfl, hquote, hpath, hblanks, hcomment⟩
    have hinside : ∀ c ∈ path, (c != quote) = true := by
      intro c hc
      rw [bne_iff_ne]
      rintro rfl
      exact hpath hc
    have hclosing : (path ++ quote :: (blanks ++ comment)).dropWhile (· != quote) =
        quote :: (blanks ++ comment) := by
      rw [List.dropWhile_append_of_pos hinside, List.dropWhile_cons_of_neg (by simp)]
    have hbehind : (blanks ++ comment).dropWhile isBlankChar = comment := by
      rw [List.dropWhile_append_of_pos (List.all_eq_true.1 hblanks),
        dropWhile_isBlankChar_of_comments hcomment]
    rw [List.append_assoc, List.cons_append, List.cons_append, isQuoted_cons]
    exact ⟨hquote, blanks ++ comment, hclosing, by rw [hbehind]; exact isComment_iff.2 hcomment⟩

theorem HoldsWord.word_infix_self {t : Text} (h : HoldsWord t) : "import".toList <:+: t := by
  obtain ⟨before, delimiter, behind, rfl, -⟩ := h
  exact ⟨before, delimiter :: behind, rfl⟩

theorem QuotesPath.quote_mem {t : Text} (h : QuotesPath t) : '"' ∈ t ∨ '\'' ∈ t := by
  obtain ⟨quote, path, blanks, comment, rfl, rfl | rfl, -⟩ := h
  · exact .inl (List.mem_cons_self ..)
  · exact .inr (List.mem_cons_self ..)

/-! ## Lines -/

/-- Blanks at the end of a line have no part in whether it looks like an import. -/
theorem accepts_append_of_isBlank (line : Text) {blanks : Text} (h : blanks.isBlank = true) :
    accepts (line ++ blanks) = accepts line := by
  rw [accepts, Text.trim_append_of_isBlank line h, accepts]

theorem accepts_of_isBlank_append {blanks : Text} (h : blanks.isBlank = true) (line : Text) :
    accepts (blanks ++ line) = accepts line := by
  rw [accepts, Text.trim_of_isBlank_append h line, accepts]

theorem accepts_eq_true_iff {line : Text} : accepts line = true ↔
    line.trim ≠ [] ∧ (HoldsWord line.trim ∨ QuotesPath line.trim) := by
  simp [accepts, hasWord_true_iff, isQuoted_iff]

/-- A line looks like an import exactly if, without the blanks at its ends, it is not empty and
holds the word between delimiters or is a quoted text with nothing but a comment behind it. Blanks
put at its ends make no difference; and a line that is blank, or holds neither a quote nor the word,
never does. -/
theorem accepts_iff (line : Text) :
    line.TrimsTo line.trim ∧
    (accepts line = true ↔ line.trim ≠ [] ∧ (HoldsWord line.trim ∨ QuotesPath line.trim)) ∧
    (∀ front back : Text, front.isBlank = true → back.isBlank = true →
      accepts (front ++ line ++ back) = accepts line) ∧
    (line.isBlank = true ∨ ('"' ∉ line ∧ '\'' ∉ line ∧ ¬ "import".toList <:+: line) →
      accepts line = false) := by
  refine ⟨Text.trimsTo_trim line, accepts_eq_true_iff, fun front back hfront hback => ?_, fun h => ?_⟩
  · rw [accepts_append_of_isBlank _ hback, accepts_of_isBlank_append hfront]
  · rw [← Bool.not_eq_true, accepts_eq_true_iff]
    rintro ⟨hne, hgrammar⟩
    rcases h with hblank | ⟨hdouble, hsingle, hword⟩
    · exact hne (Text.trim_of_isBlank hblank)
    · have hinside : line.trim <:+: line := Text.trim_infix_self line
      rcases hgrammar with hholds | hquotes
      · exact hword (hholds.word_infix_self.trans hinside)
      · rcases hquotes.quote_mem with hmem | hmem
        · exact hdouble (hinside.subset hmem)
        · exact hsingle (hinside.subset hmem)

/-- A quoted text with a quote of the other kind in it and a comment behind it, and a closing
bracket, each between an em space and a carriage return. -/
theorem accepts_iff_padded :
    let path : Text := "\"a'b\"\u00a0//\"c".toList
    let bracket : Text := [')']
    let front : Text := ['\u2003', '\t']
    let back : Text := [' ', '\r']
    front.isBlank = true ∧ back.isBlank = true ∧ QuotesPath path ∧
      accepts (front ++ path ++ back) = true ∧
      ('"' ∉ bracket ∧ '\'' ∉ bracket ∧ ¬ "import".toList <:+: bracket) ∧
      accepts (front ++ bracket ++ back) = false := by
  intro path bracket front back
  have hquotes : QuotesPath path :=
    ⟨'"', "a'b".toList, ['\u00a0'], "//\"c".toList, by decide, by decide, by decide, by decide,
      .inr ⟨"\"c".toList, by decide, by decide⟩⟩
  have hplain : '"' ∉ bracket ∧ '\'' ∉ bracket ∧ ¬ "import".toList <:+: bracket := by decide
  have htrim : path.trim = path := by decide
  obtain ⟨-, hgrammar, hpadded, -⟩ := accepts_iff path
  obtain ⟨-, -, hpadded', hnever⟩ := accepts_iff bracket
  refine ⟨by decide, by decide, hquotes, ?_, hplain, ?_⟩
  · rw [hpadded front back (by decide) (by decide), hgrammar, htrim]
    exact ⟨by decide, .inr hquotes⟩
  · rw [hpadded' front back (by decide) (by decide), hnever (.inr hplain)]

end Repath.ImportLine
