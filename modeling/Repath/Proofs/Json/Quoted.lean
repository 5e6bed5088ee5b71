/-
The texts that a written document spells. Outside of quotes the printer writes no quote, and inside
of them it escapes; so whoever reads the pretty form from one quoted text to the next reads the
keys and the string values of the document, each as it is, in the order they stand there
(`spells_pretty`), and there is no other way to read them (`Quotes.unique`). What the numbers look
like plays no part in it, but that they hold no quote.
-/
import Repath.Json.Printer
import Repath.Json.Reader
import Mathlib.Data.List.Basic
import Mathlib.Data.List.Flatten
import Mathlib.Tactic.SplitIfs

namespace Repath

/-! ## Numbers -/

theorem quote_notMem_toDigits (n : Nat) : '"' ∉ Nat.toDigits 10 n := by
  intro h
  have hdigit : '"'.isDigit = true :=
    Nat.isDigit_of_mem_toDigits (b := 10) (n := n) (by decide) (by decide) h
  exact absurd hdigit (by decide)

namespace Double

theorem quote_notMem_layout {digits : Text} (h : '"' ∉ digits) (exponent : Int) :
    '"' ∉ layout digits exponent := by
  have htake : ∀ n, '"' ∉ digits.take n := fun n hin => h (List.mem_of_mem_take hin)
  have hdrop : ∀ n, '"' ∉ digits.drop n := fun n hin => h (List.mem_of_mem_drop hin)
  unfold layout
  split
  · split
    · split <;> simp [h, htake, hdrop]
    · simp [h]
  · dsimp only
    rw [List.mem_append, List.mem_cons, not_or, not_or]
    refine ⟨?_, by decide, ?_⟩
    · split <;> simp at h ⊢ <;> exact h
    · split <;> simp [quote_notMem_toDigits]

theorem quote_notMem_text (d : Double) : '"' ∉ d.text := by
  have hdigits : ∀ n, '"' ∉ significantDigits n := fun n h => by
    have hin := (List.dropWhile_sublist _).mem (List.mem_reverse.1 h)
    rw [List.mem_reverse, Nat.toList_repr] at hin
    exact quote_notMem_toDigits n hin
  unfold text
  dsimp only
  split_ifs <;> simp [quote_notMem_layout (hdigits _)]

end Double

namespace Json

theorem quote_notMem_numberText : ∀ n : Number, '"' ∉ numberText n
  | .whole (.ofNat n) => by simp [numberText, Text.ofNat, quote_notMem_toDigits]
  | .whole (.negSucc n) => by simp [numberText, Text.ofNat, quote_notMem_toDigits]
  | .double d => d.quote_notMem_text

/-! ## Quoted texts -/

/-- Read from its first quote on, and from one closing quote to the next opening one, the text
holds these quoted texts. -/
inductive Quotes : Text → List Text → Prop
  | nil : Quotes [] []
  | other {c : Char} {t : Text} {found : List Text} :
      c ≠ '"' → Quotes t found → Quotes (c :: t) found
  | quoted {t s rest : Text} {found : List Text} :
      readQuoted (t.length + 1) t [] = some (s, rest) → Quotes rest found →
      Quotes ('"' :: t) (s :: found)

theorem Quotes.unique {t : Text} {found others : List Text} (h : Quotes t found)
    (h' : Quotes t others) : found = others := by
  induction h generalizing others with
  | nil => cases h'; rfl
  | other hc _ ih =>
    cases h' with
    | other _ h' => exact ih h'
    | quoted _ _ => exact absurd rfl hc
  | quoted hread _ ih =>
    cases h' with
    | other hc _ => exact absurd rfl hc
    | quoted hread' h' =>
      obtain ⟨rfl, rfl⟩ := Prod.mk.inj (Option.some.inj (hread.symm.trans hread'))
      rw [ih h']

theorem hexValue?_hexDigit : ∀ n < 16, hexValue? (hexDigit n) = some n := by
  decide

theorem readUnit_hexDigits {n : Nat} (h : n < 0x20) (rest : Text) :
    readUnit ('0' :: '0' :: hexDigit (n / 16) :: hexDigit (n % 16) :: rest) = some (n, rest) := by
  have hzero : hexValue? '0' = some 0 := by decide
  have hvalue : ((0 * 16 + 0) * 16 + n / 16) * 16 + n % 16 = n := by omega
  rw [readUnit, hzero, hexValue?_hexDigit _ (by omega), hexValue?_hexDigit _ (by omega)]
  exact congrArg (fun m => some (m, rest)) hvalue

theorem readScalar_hexDigits {n : Nat} (h : n < 0x20) (rest : Text) :
    readScalar ('0' :: '0' :: hexDigit (n / 16) :: hexDigit (n % 16) :: rest) =
      some (Char.ofNat n, rest) := by
  have hlow : ¬ (0xDC00 ≤ n && n ≤ 0xDFFF) = true := by simp; omega
  have hhigh : ¬ (0xD800 ≤ n && n ≤ 0xDBFF) = true := by simp; omega
  rw [readScalar, readUnit_hexDigits h, Option.bind_eq_bind, Option.bind_some]
  dsimp only
  rw [if_neg hlow, if_neg hhigh]
  rfl

theorem readQuoted_of_readScalar {t rest : Text} {c : Char} (h : readScalar t = some (c, rest))
    (turns : Nat) (done : Text) :
    readQuoted (turns + 1) ('\\' :: 'u' :: t) done = readQuoted turns rest (c :: done) := by
  rw [readQuoted, if_neg (by decide), if_pos rfl, h]

/-- An escaped character takes one turn of the reader, and reads as itself. -/
theorem readQuoted_escapeChar (c : Char) (turns : Nat) (rest done : Text) :
    readQuoted (turns + 1) (escapeChar c ++ rest) done = readQuoted turns rest (c :: done) := by
  have hc : Char.ofNat c.toNat = c := Char.ofNat_toNat c
  fun_cases escapeChar c with
  | case1 hquote => subst hquote; rfl
  | case2 _ hbackslash => subst hbackslash; rfl
  | case3 _ _ hn => subst hn; rfl
  | case4 _ _ _ hr => subst hr; rfl
  | case5 _ _ _ _ ht => subst ht; rfl
  | case6 _ _ _ _ _ hb => rw [hb] at hc; subst hc; rfl
  | case7 _ _ _ _ _ _ hf => rw [hf] at hc; subst hc; rfl
  | case8 _ _ _ _ _ _ _ hcontrol =>
    have hscalar := readScalar_hexDigits hcontrol rest
    rw [hc] at hscalar
    exact readQuoted_of_readScalar hscalar turns done
  | case9 hquote hbackslash _ _ _ _ _ hcontrol =>
    rw [List.singleton_append, readQuoted.eq_def]
    dsimp only
    rw [if_neg hquote, if_neg hbackslash, if_neg hcontrol]

/-- Reading up to the closing quote gives what was quoted, if the turns do. -/
theorem readQuoted_escaped : ∀ (s : Text) {turns : Nat} (rest done : Text), s.length < turns →
    readQuoted turns (s.flatMap escapeChar ++ '"' :: rest) done = some (done.reverse ++ s, rest)
  | [], turns + 1, rest, done, _ => by
    rw [List.append_nil]
    rfl
  | c :: s, turns + 1, rest, done, h => by
    rw [List.flatMap_cons, List.append_assoc, readQuoted_escapeChar,
      readQuoted_escaped s rest (c :: done) (Nat.lt_of_succ_lt_succ h)]
    simp

theorem length_le_flatMap_escapeChar : ∀ s : Text, s.length ≤ (s.flatMap escapeChar).length
  | [] => Nat.le_refl _
  | c :: s => by
    have hone : 1 ≤ (escapeChar c).length := by
      fun_cases escapeChar c <;> simp
    have hrest := length_le_flatMap_escapeChar s
    rw [List.flatMap_cons, List.length_append, List.length_cons]
    omega

/-! ## What a written document spells -/

mutual

/-- The keys and the string values of a value, in the order they are written. -/
def texts : Json → List Text
  | null => []
  | bool _ => []
  | number _ => []
  | string s => [s]
  | array items => (itemsTexts items).flatten
  | object fields => (fieldsTexts fields).flatten
termination_by structural j => j

def itemsTexts : List Json → List (List Text)
  | [] => []
  | j :: rest => j.texts :: itemsTexts rest
termination_by structural items => items

def fieldsTexts : List (Text × Json) → List (List Text)
  | [] => []
  | (k, v) :: rest => (k :: v.texts) :: fieldsTexts rest
termination_by structural fields => fields

end

/-- The texts of an entry. -/
def entryTexts (entry : Text × Json) : List Text :=
  entry.1 :: entry.2.texts

theorem texts_object (fields : Fields) : (object fields).texts = fields.flatMap entryTexts := by
  have hfields : ∀ fields : Fields, fieldsTexts fields = fields.map entryTexts := by
    intro fields
    induction fields with
    | nil => rfl
    | cons entry rest ih => rw [fieldsTexts, ih, List.map_cons, entryTexts]
  rw [texts, hfields, List.flatMap_def]

/-- Entries that are among others spell texts that are among theirs. -/
theorem texts_sublist_of_sublist {some all : Fields} (h : some.Sublist all) :
    (object some).texts.Sublist (object all).texts := by
  rw [texts_object, texts_object]
  exact h.flatMap entryTexts

theorem texts_insertField_sublist {value other : Json} (h : value.texts.Sublist other.texts)
    (key : Text) (fields : Fields) :
    (object (insertField key value fields)).texts.Sublist
      (object (insertField key other fields)).texts := by
  have hentry : (entryTexts (key, value)).Sublist (entryTexts (key, other)) := h.cons_cons key
  rw [texts_object, texts_object]
  induction fields with
  | nil => exact hentry.append (.refl [])
  | cons entry rest ih =>
    obtain ⟨k, v⟩ := entry
    rw [insertField, insertField]
    split_ifs
    · exact hentry.append (.refl _)
    · exact hentry.append (.refl _)
    · exact (List.Sublist.refl (entryTexts (k, v))).append ih

/-- Wherever the text stands, these quoted texts are read from it before those behind it. -/
def Spells (t : Text) (found : List Text) : Prop :=
  ∀ (rest : Text) (behind : List Text), Quotes rest behind → Quotes (t ++ rest) (found ++ behind)

theorem Spells.quotes {t : Text} {found : List Text} (h : Spells t found) : Quotes t found := by
  have hall := h [] [] .nil
  rwa [List.append_nil, List.append_nil] at hall

theorem Spells.append {t u : Text} {found others : List Text} (ht : Spells t found)
    (hu : Spells u others) : Spells (t ++ u) (found ++ others) := by
  intro rest behind hrest
  rw [List.append_assoc, List.append_assoc]
  exact ht _ _ (hu _ _ hrest)

theorem spells_of_notMem : ∀ {t : Text}, '"' ∉ t → Spells t []
  | [], _, _, _, hrest => hrest
  | c :: t, h, _, _, hrest => by
    rw [List.mem_cons, not_or] at h
    exact .other (Ne.symm h.1) (spells_of_notMem h.2 _ _ hrest)

theorem spells_quote (s : Text) : Spells (quote s) [s] := by
  intro rest behind hrest
  have hlength := length_le_flatMap_escapeChar s
  have hturns : s.length < (s.flatMap escapeChar ++ '"' :: rest).length + 1 := by
    rw [List.length_append]
    omega
  rw [quote, List.cons_append, List.append_assoc]
  exact .quoted (readQuoted_escaped s rest [] hturns) hrest

theorem spells_intercalate {separator : Text} (h : '"' ∉ separator) :
    ∀ {items : List Text} {found : List (List Text)}, List.Forall₂ Spells items found →
      Spells (separator.intercalate items) found.flatten
  | [], _, .nil => spells_of_notMem List.not_mem_nil
  | [t], _, .cons ht .nil => by
    rw [List.intercalate_singleton, List.flatten_cons, List.flatten_nil, List.append_nil]
    exact ht
  | t :: u :: items, _, .cons ht hrest => by
    have hbehind := (spells_of_notMem h).append (spells_intercalate h hrest)
    rw [List.intercalate_cons_cons, List.flatten_cons, List.append_assoc]
    exact ht.append hbehind

theorem quote_notMem_newline (level : Nat) : '"' ∉ newline level := by
  simp [newline]

theorem spells_block {opening closing : Char} (hopening : opening ≠ '"') (hclosing : closing ≠ '"')
    (level : Nat) {items : List Text} {found : List (List Text)}
    (h : List.Forall₂ Spells items found) :
    Spells (block opening closing level items) found.flatten := by
  cases h with
  | nil =>
    have hempty : '"' ∉ [opening, closing] := by simp [hopening.symm, hclosing.symm]
    exact spells_of_notMem hempty
  | cons ht hrest =>
    have hline := quote_notMem_newline
    have hstart : '"' ∉ opening :: newline (level + 1) := by simp [hopening.symm, hline]
    have hseparator : '"' ∉ ',' :: newline (level + 1) := by simp [hline]
    have hend : '"' ∉ newline level ++ [closing] := by simp [hclosing.symm, hline]
    have hitems := spells_intercalate hseparator (.cons ht hrest)
    have hall := (spells_of_notMem hstart).append (hitems.append (spells_of_notMem hend))
    rwa [List.nil_append, List.append_nil] at hall

mutual

theorem spells_prettyAt (level : Nat) : ∀ j : Json, Spells (j.prettyAt level) j.texts
  | null => spells_of_notMem (t := nullText) (by decide)
  | bool b => spells_of_notMem (t := boolText b) (by cases b <;> decide)
  | number n => spells_of_notMem (quote_notMem_numberText n)
  | string s => spells_quote s
  | array items => spells_block (by decide) (by decide) level (spells_prettyItems (level + 1) items)
  | object fields =>
    spells_block (by decide) (by decide) level (spells_prettyFields (level + 1) fields)
termination_by structural j => j

theorem spells_prettyItems (level : Nat) : ∀ items : List Json,
    List.Forall₂ Spells (prettyItems level items) (itemsTexts items)
  | [] => .nil
  | j :: rest => .cons (spells_prettyAt level j) (spells_prettyItems level rest)
termination_by structural items => items

theorem spells_prettyFields (level : Nat) : ∀ fields : List (Text × Json),
    List.Forall₂ Spells (prettyFields level fields) (fieldsTexts fields)
  | [] => .nil
  | (k, v) :: rest => by
    have hcolon : Spells [':', ' '] [] := spells_of_notMem (by decide)
    have hvalue := hcolon.append (spells_prettyAt level v)
    exact .cons ((spells_quote k).append hvalue) (spells_prettyFields level rest)
termination_by structural fields => fields

end

/-- The pretty form of a document spells its keys and string values, and nothing else. -/
theorem spells_pretty (j : Json) : Spells j.pretty j.texts :=
  spells_prettyAt 0 j

end Json

end Repath
