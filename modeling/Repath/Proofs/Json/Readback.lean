/-
Reading back what was printed. A whole number of 64 bits, a text and a container are each read from
the start of any text that they are printed in front of, as long as no digit, point or exponent
follows a number (`readsBack_prettyAt`). So the pretty form of a well-formed document with whole
numbers is a text of just this document (`read?_pretty`).
-/
import Repath.Proofs.Json.Quoted
import Repath.Proofs.Json.Reader
import Mathlib.Data.List.Forall2

namespace Repath.Json

/-! ## Whole numbers -/

/-- A number that is followed by the text ends there. -/
def Ends (rest : Text) : Prop :=
  ∀ c ∈ rest.head?, isDigit c = false ∧ c ≠ '.' ∧ c ≠ 'e' ∧ c ≠ 'E'

theorem isDigit_of_mem_toDigits {n : Nat} {c : Char} (h : c ∈ Nat.toDigits 10 n) :
    isDigit c = true := by
  have hdigit : c.isDigit = true := Nat.isDigit_of_mem_toDigits (by decide) (by decide) h
  exact hdigit

/-- Only the number zero starts with the digit zero. -/
theorem toDigits_eq_zero_cons {n : Nat} {rest : Text} (h : Nat.toDigits 10 n = '0' :: rest) :
    rest = [] := by
  induction n using Nat.strongRecOn generalizing rest with
  | ind n ih =>
    rcases Nat.lt_or_ge n 10 with hlt | hge
    · rw [Nat.toDigits_of_lt_base hlt] at h
      exact (List.cons.inj h).2.symm
    · rw [Nat.toDigits_of_base_le (by decide) hge] at h
      cases hfront : Nat.toDigits 10 (n / 10) with
      | nil => exact absurd hfront Nat.toDigits_ne_nil
      | cons c front =>
        rw [hfront] at h
        obtain ⟨rfl, -⟩ := List.cons.inj h
        -- the digits in front would be those of zero
        have hnil := ih (n / 10) (by omega) hfront
        have hvalue := Nat.ofDigitChars_ten_toDigits (n := n / 10)
        rw [hfront, hnil] at hvalue
        have hzero : n / 10 = 0 := hvalue.symm
        omega

theorem takeWhile_digits {digits rest : Text} (h : ∀ c ∈ digits, isDigit c = true)
    (hrest : Ends rest) : (digits ++ rest).takeWhile isDigit = digits ∧
      (digits ++ rest).dropWhile isDigit = rest := by
  rw [List.takeWhile_append_of_pos h, List.dropWhile_append_of_pos h]
  cases rest with
  | nil => simp
  | cons c rest => simp [(hrest c rfl).1]

theorem readWhole_toDigits (n : Nat) {rest : Text} (hrest : Ends rest) :
    readWhole (Nat.toDigits 10 n ++ rest) = some (Nat.toDigits 10 n, rest) := by
  obtain ⟨htake, hdrop⟩ := takeWhile_digits (fun c => isDigit_of_mem_toDigits (n := n)) hrest
  unfold readWhole
  rw [htake, hdrop]
  cases hdigits : Nat.toDigits 10 n with
  | nil => exact absurd hdigits Nat.toDigits_ne_nil
  | cons c digits =>
    refine if_neg fun hlead => ?_
    rw [Bool.and_eq_true, decide_eq_true_eq] at hlead
    rw [hlead.1] at hdigits
    rw [toDigits_eq_zero_cons hdigits] at hlead
    cases hlead.2

theorem readFraction_of_ends {rest : Text} (h : Ends rest) : readFraction rest = some (none, rest) := by
  unfold readFraction
  split
  · exact absurd rfl (h '.' rfl).2.1
  · rfl

theorem readExponent_of_ends {rest : Text} (h : Ends rest) : readExponent rest = some (none, rest) := by
  cases rest with
  | nil => rfl
  | cons c rest =>
    obtain ⟨-, -, hlower, hupper⟩ := h c rfl
    rw [readExponent.eq_def]
    exact if_neg (by simp [hlower, hupper])

theorem digitsValue_toDigits (n : Nat) : digitsValue (Nat.toDigits 10 n) = n := by
  rw [digitsValue, foldl_digits_eq_ofDigitChars, Nat.ofDigitChars_ten_toDigits]

theorem readUnsigned_toDigits {negative : Bool} {n : Nat} {number : Number}
    (hnumber : assemble negative (Nat.toDigits 10 n) none none = some number) {rest : Text}
    (hrest : Ends rest) :
    readUnsigned negative (Nat.toDigits 10 n ++ rest) = some (.number number, rest) := by
  simp only [readUnsigned, readWhole_toDigits n hrest, readFraction_of_ends hrest,
    readExponent_of_ends hrest, hnumber, Option.bind_eq_bind, Option.bind_some, Option.pure_def]

/-- At the start of every text before which a number ends, the written form reads as the value. -/
def ReadsBack (item : Text → Option (Json × Text)) (t : Text) (j : Json) : Prop :=
  ∀ rest, Ends rest → item (t ++ rest) = some (j, rest)

theorem readsBack_ofNat (length depth : Nat) {n : Nat} (h : n < UInt64.size) :
    ReadsBack (readValue length depth) (Text.ofNat n) (nat n) := by
  intro rest hrest
  have hvalue := digitsValue_toDigits n
  have hnumber : assemble false (Nat.toDigits 10 n) none none = some (.whole n) :=
    assemble_eq_whole_iff.2 ⟨rfl, rfl, .inl ⟨rfl, by omega, by rw [hvalue]⟩⟩
  have hread := readUnsigned_toDigits hnumber hrest
  rw [Text.ofNat, Nat.toList_repr]
  cases hdigits : Nat.toDigits 10 n with
  | nil => exact absurd hdigits Nat.toDigits_ne_nil
  | cons c digits =>
    have hc : isDigit c = true := isDigit_of_mem_toDigits (hdigits ▸ List.mem_cons_self)
    rw [hdigits] at hread
    rw [List.cons_append] at hread ⊢
    rw [readValue.eq_def]
    dsimp only
    rw [if_neg (by rintro rfl; cases hc), if_neg (by rintro rfl; cases hc), if_pos hc]
    exact hread

theorem readsBack_neg (length depth : Nat) {n : Nat} (hpos : 0 < n) (h : n ≤ UInt64.size / 2) :
    ReadsBack (readValue length depth) ('-' :: Text.ofNat n) (number (.whole (-n))) := by
  intro rest hrest
  have hvalue := digitsValue_toDigits n
  have hnumber : assemble true (Nat.toDigits 10 n) none none = some (.whole (-n)) :=
    assemble_eq_whole_iff.2 ⟨rfl, rfl, .inr ⟨rfl, by omega, by omega, by rw [hvalue]⟩⟩
  have hread := readUnsigned_toDigits hnumber hrest
  rw [Text.ofNat, Nat.toList_repr, List.cons_append, readValue.eq_def]
  exact hread

/-! ## Space between values -/

/-- A written value or key: it starts with neither space nor a closing bracket. -/
def Starts (t : Text) : Prop :=
  ∃ c u, t = c :: u ∧ isSpace c = false ∧ c ≠ ']' ∧ c ≠ '}'

theorem Starts.append {t : Text} (h : Starts t) (rest : Text) : Starts (t ++ rest) := by
  obtain ⟨c, u, rfl, hc⟩ := h
  exact ⟨c, u ++ rest, rfl, hc⟩

theorem Starts.intercalate {t : Text} (h : Starts t) (separator : Text) :
    ∀ texts : List Text, Starts (separator.intercalate (t :: texts))
  | [] => by rwa [List.intercalate_singleton]
  | u :: texts => by
    rw [List.intercalate_cons_cons, List.append_assoc]
    exact h.append _

theorem skipSpace_of_starts {t : Text} (h : Starts t) : skipSpace t = t := by
  obtain ⟨c, u, rfl, hc, -⟩ := h
  exact List.dropWhile_cons_of_neg (by simp [hc])

theorem skipSpace_newline_append (level : Nat) (t : Text) :
    skipSpace (newline level ++ t) = skipSpace t := by
  refine List.dropWhile_append_of_pos fun c hc => ?_
  rcases List.mem_cons.1 hc with rfl | hc
  · rfl
  · rw [List.eq_of_mem_replicate hc]
    rfl

theorem ends_comma (rest : Text) : Ends (',' :: rest) := by
  rintro c ⟨⟩
  decide

theorem ends_newline (level : Nat) (rest : Text) : Ends (newline level ++ rest) := by
  rintro c ⟨⟩
  decide

theorem starts_of_isDigit {c : Char} (h : isDigit c = true) (t : Text) : Starts (c :: t) := by
  refine ⟨c, t, rfl, Bool.eq_false_iff.2 fun hspace => ?_, ?_, ?_⟩
  · simp only [isSpace, Bool.or_eq_true, beq_iff_eq] at hspace
    rcases hspace with ((rfl | rfl) | rfl) | rfl <;> cases h
  · rintro rfl
    cases h
  · rintro rfl
    cases h

theorem starts_quote (s : Text) : Starts (quote s) :=
  ⟨'"', _, rfl, by decide⟩

theorem starts_block (opening closing : Char) (level : Nat) (items : List Text)
    (h : isSpace opening = false ∧ opening ≠ ']' ∧ opening ≠ '}') :
    Starts (block opening closing level items) := by
  cases items with
  | nil => exact ⟨opening, _, rfl, h⟩
  | cons t items => exact ⟨opening, _, rfl, h⟩

theorem starts_ofNat (n : Nat) : Starts (Text.ofNat n) := by
  rw [Text.ofNat, Nat.toList_repr]
  cases hdigits : Nat.toDigits 10 n with
  | nil => exact absurd hdigits Nat.toDigits_ne_nil
  | cons c digits =>
    exact starts_of_isDigit (isDigit_of_mem_toDigits (hdigits ▸ List.mem_cons_self)) digits

theorem starts_prettyAt {j : Json} (h : Whole j) (level : Nat) : Starts (j.prettyAt level) := by
  cases h with
  | null => exact ⟨'n', _, rfl, by decide⟩
  | bool b => cases b <;> exact ⟨_, _, rfl, by decide⟩
  | number n =>
    cases n with
    | ofNat n => exact starts_ofNat n
    | negSucc n => exact ⟨'-', _, rfl, by decide⟩
  | string s => exact starts_quote s
  | array h => exact starts_block _ _ _ _ (by decide)
  | object h => exact starts_block _ _ _ _ (by decide)

/-! ## Containers -/

section

variable {item : Text → Option (Json × Text)} {level : Nat}

/-- The items of an array, from the first one on. -/
theorem readItems_intercalate : ∀ {turns : Nat} {texts : List Text} {items : List Json},
    List.Forall₂ (fun t j => Starts t ∧ ReadsBack item t j) texts items →
    texts ≠ [] → texts.length ≤ turns → ∀ {t rest : Text} {done : List Json},
    skipSpace t = (',' :: newline (level + 1)).intercalate texts ++ (newline level ++ ']' :: rest) →
    readItems item turns t done = some (done.reverse ++ items, rest)
  | _, [], _, _, hne, _, _, _, _, _ => absurd rfl hne
  | 0, _ :: _, _, _, _, hturns, _, _, _, _ => absurd hturns (Nat.not_succ_le_zero _)
  | turns + 1, [u], [j], .cons ⟨_, hu⟩ .nil, _, _, t, rest, done, ht => by
    rw [readItems, ht, List.intercalate_singleton, hu _ (ends_newline level _)]
    dsimp only
    rw [skipSpace_newline_append, List.reverse_cons]
    rfl
  | turns + 1, u :: v :: texts, j :: items, .cons ⟨_, hu⟩ hrest, _, hturns, t, rest, done, ht => by
    cases hrest with
    | cons hv hmore =>
      have hstarts := (hv.1.intercalate (',' :: newline (level + 1)) texts).append
        (newline level ++ ']' :: rest)
      have hspace := (skipSpace_newline_append (level + 1) _).trans (skipSpace_of_starts hstarts)
      rw [readItems, ht, List.intercalate_cons_cons, List.append_assoc, List.append_assoc,
        List.cons_append, hu _ (ends_comma _)]
      show readItems item turns _ (j :: done) = _
      rw [readItems_intercalate (.cons hv hmore) (List.cons_ne_nil v texts)
        (Nat.le_of_succ_le_succ hturns) hspace, List.reverse_cons, List.append_assoc,
        List.singleton_append]

theorem readKey_quote {turns : Nat} {t key rest : Text} (hkey : key.length < turns)
    (ht : skipSpace t = quote key ++ ':' :: rest) : readKey turns t = some (key, rest) := by
  have hquoted := readQuoted_escaped key (':' :: rest) [] hkey
  rw [quote, List.cons_append, List.append_assoc] at ht
  rw [readKey, ht]
  simp only [List.singleton_append, hquoted]
  rfl

/-- The text writes the field, and the value in it is read back. -/
def WritesField (length : Nat) (item : Text → Option (Json × Text)) (t : Text)
    (field : Text × Json) : Prop :=
  ∃ u, t = quote field.1 ++ ':' :: ' ' :: u ∧ field.1.length < length ∧ Starts u ∧
    ReadsBack item u field.2

theorem WritesField.starts {length : Nat} {t : Text} {field : Text × Json}
    (h : WritesField length item t field) : Starts t := by
  obtain ⟨u, rfl, -⟩ := h
  exact (starts_quote field.1).append _

/-- A field in front of a text that cannot go on with a number. -/
theorem WritesField.readKey {length : Nat} {t rest : Text} {field : Text × Json}
    (h : WritesField length item t field) (hrest : Ends rest) {u : Text}
    (hu : skipSpace u = t ++ rest) : ∃ v, readKey length u = some (field.1, v) ∧
      item (skipSpace v) = some (field.2, rest) := by
  obtain ⟨w, rfl, hkey, hw, hread⟩ := h
  rw [List.append_assoc, List.cons_append, List.cons_append] at hu
  refine ⟨_, readKey_quote hkey hu, ?_⟩
  have hspace : skipSpace (' ' :: (w ++ rest)) = skipSpace (w ++ rest) := rfl
  rw [hspace, skipSpace_of_starts (hw.append rest), hread rest hrest]

/-- The fields of an object, from the first one on. -/
theorem readFields_intercalate {length : Nat} : ∀ {turns : Nat} {texts : List Text}
    {fields : Fields}, List.Forall₂ (WritesField length item) texts fields →
    texts ≠ [] → texts.length ≤ turns → ∀ {t rest : Text} {done : Fields},
    skipSpace t = (',' :: newline (level + 1)).intercalate texts ++ (newline level ++ '}' :: rest) →
    readFields length item turns t done = some (done.reverse ++ fields, rest)
  | _, [], _, _, hne, _, _, _, _, _ => absurd rfl hne
  | 0, _ :: _, _, _, _, hturns, _, _, _, _ => absurd hturns (Nat.not_succ_le_zero _)
  | turns + 1, [u], [field], .cons hu .nil, _, _, t, rest, done, ht => by
    rw [List.intercalate_singleton] at ht
    obtain ⟨v, hkey, hread⟩ := hu.readKey (ends_newline level _) ht
    rw [readFields, hkey]
    dsimp only
    rw [hread]
    dsimp only
    rw [skipSpace_newline_append, List.reverse_cons]
    rfl
  | turns + 1, u :: w :: texts, field :: fields, .cons hu hrest, _, hturns, t, rest, done, ht => by
    cases hrest with
    | cons hw hmore =>
      have hstarts := (hw.starts.intercalate (',' :: newline (level + 1)) texts).append
        (newline level ++ '}' :: rest)
      have hspace := (skipSpace_newline_append (level + 1) _).trans (skipSpace_of_starts hstarts)
      rw [List.intercalate_cons_cons, List.append_assoc, List.append_assoc, List.cons_append] at ht
      obtain ⟨v, hkey, hread⟩ := hu.readKey (ends_comma _) ht
      rw [readFields, hkey]
      dsimp only
      rw [hread]
      show readFields length item turns _ (field :: done) = _
      rw [readFields_intercalate (.cons hw hmore) (List.cons_ne_nil w texts)
        (Nat.le_of_succ_le_succ hturns) hspace, List.reverse_cons, List.append_assoc,
        List.singleton_append]

end

/-! ## Sizes of what is printed -/

theorem length_le_intercalate {separator : Text} (hne : separator ≠ []) :
    ∀ texts : List Text, texts.length ≤ (separator.intercalate texts).length + 1 ∧
      ∀ t ∈ texts, t.length ≤ (separator.intercalate texts).length
  | [] => ⟨Nat.zero_le _, nofun⟩
  | [t] => by simp
  | t :: u :: texts => by
    have hseparator := List.length_pos_iff.2 hne
    obtain ⟨hcount, hmem⟩ := length_le_intercalate hne (u :: texts)
    rw [List.intercalate_cons_cons, List.length_append, List.length_append]
    refine ⟨by rw [List.length_cons]; omega, fun v hv => ?_⟩
    rcases List.mem_cons.1 hv with rfl | hv
    · omega
    · exact Nat.le_add_left_of_le (hmem v hv)

/-- A container is longer than any of the items in it, and than their number. -/
theorem lt_length_block (opening closing : Char) (level : Nat) (texts : List Text) :
    texts.length < (block opening closing level texts).length ∧
      ∀ t ∈ texts, t.length < (block opening closing level texts).length := by
  cases texts with
  | nil => exact ⟨Nat.succ_pos _, nofun⟩
  | cons t texts =>
    obtain ⟨hcount, hmem⟩ :=
      length_le_intercalate (List.cons_ne_nil ',' (newline (level + 1))) (t :: texts)
    simp only [block, List.length_cons, List.length_append] at hcount hmem ⊢
    refine ⟨by omega, fun u hu => ?_⟩
    have hu := hmem u hu
    omega

/-! ## Printed values -/

section

variable {length depth level : Nat}

theorem readValue_bracket {t u : Text} (ht : skipSpace t = u) (hu : Starts u) :
    readValue length (depth + 1) ('[' :: t) =
      (readItems (readValue length depth) length u []).map fun r => (array r.1, r.2) := by
  obtain ⟨c, v, rfl, -, hc, -⟩ := hu
  rw [readValue.eq_def]
  dsimp only
  rw [if_neg (by decide), if_neg (by decide), if_neg (by decide), if_neg (by decide),
    if_neg (by decide), if_neg (by decide), if_pos rfl, ht]
  split
  · exact absurd (List.cons.inj ‹_›).1 hc
  · rfl

theorem readValue_brace {t u : Text} (ht : skipSpace t = u) (hu : Starts u) :
    readValue length (depth + 1) ('{' :: t) =
      (readFields length (readValue length depth) length u []).map
        fun r => (object (sortFields r.1), r.2) := by
  obtain ⟨c, v, rfl, -, -, hc⟩ := hu
  rw [readValue.eq_def]
  dsimp only
  rw [if_neg (by decide), if_neg (by decide), if_neg (by decide), if_neg (by decide),
    if_neg (by decide), if_neg (by decide), if_neg (by decide), if_pos rfl, ht]
  split
  · exact absurd (List.cons.inj ‹_›).1 hc
  · rfl

theorem block_append (opening closing : Char) (level : Nat) (t : Text) (texts : List Text)
    (rest : Text) : block opening closing level (t :: texts) ++ rest = opening ::
      (newline (level + 1) ++ ((',' :: newline (level + 1)).intercalate (t :: texts) ++
        (newline level ++ closing :: rest))) := by
  simp [block]

theorem readsBack_array {texts : List Text} {items : List Json}
    (h : List.Forall₂ (fun t j => Starts t ∧ ReadsBack (readValue length depth) t j) texts items)
    (hlength : (block '[' ']' level texts).length < length) :
    ReadsBack (readValue length (depth + 1)) (block '[' ']' level texts) (array items) := by
  intro rest _
  have hturns := ((lt_length_block '[' ']' level texts).1.trans hlength).le
  cases h with
  | nil =>
    rw [block, readValue.eq_def]
    rfl
  | @cons t j texts items ht hmore =>
    have hstarts := (ht.1.intercalate (',' :: newline (level + 1)) texts).append
      (newline level ++ ']' :: rest)
    have hspace := skipSpace_of_starts hstarts
    rw [block_append, readValue_bracket ((skipSpace_newline_append (level + 1) _).trans hspace) hstarts,
      readItems_intercalate (.cons ht hmore) (List.cons_ne_nil t texts) hturns hspace]
    rfl

theorem readsBack_object {texts : List Text} {fields : Fields} (hordered : Ordered fields)
    (h : List.Forall₂ (WritesField length (readValue length depth)) texts fields)
    (hlength : (block '{' '}' level texts).length < length) :
    ReadsBack (readValue length (depth + 1)) (block '{' '}' level texts) (object fields) := by
  intro rest _
  have hturns := ((lt_length_block '{' '}' level texts).1.trans hlength).le
  cases h with
  | nil =>
    rw [block, readValue.eq_def]
    rfl
  | @cons t field texts fields ht hmore =>
    have hstarts := (ht.starts.intercalate (',' :: newline (level + 1)) texts).append
      (newline level ++ '}' :: rest)
    have hspace := skipSpace_of_starts hstarts
    rw [block_append, readValue_brace ((skipSpace_newline_append (level + 1) _).trans hspace) hstarts,
      readFields_intercalate (.cons ht hmore) (List.cons_ne_nil t texts) hturns hspace]
    show some (object (sortFields (field :: fields)), rest) = _
    rw [sortFields_of_ordered hordered]

end

theorem prettyItems_eq_map (level : Nat) (items : List Json) :
    prettyItems level items = items.map (prettyAt level) := by
  induction items with
  | nil => rfl
  | cons j items ih => rw [prettyItems, ih, List.map_cons]

/-- The written form of a field. -/
def fieldText (level : Nat) (field : Text × Json) : Text :=
  quote field.1 ++ ':' :: ' ' :: field.2.prettyAt level

theorem prettyFields_eq_map (level : Nat) (fields : Fields) :
    prettyFields level fields = fields.map (fieldText level) := by
  induction fields with
  | nil => rfl
  | cons field fields ih => rw [prettyFields, ih, List.map_cons, fieldText]

theorem length_lt_quote (s : Text) : s.length < (quote s).length := by
  have hle := length_le_flatMap_escapeChar s
  rw [quote, List.length_cons, List.length_append]
  omega

theorem readsBack_prettyAt (length : Nat) {depth : Nat} {j : Json} (h : Formed depth j)
    (hwhole : Whole j) : ∀ level, (j.prettyAt level).length < length →
    ReadsBack (readValue length depth) (j.prettyAt level) j := by
  induction h with
  | null =>
    intro level _ rest _
    rw [prettyAt, readValue.eq_def]
    rfl
  | bool b =>
    intro level _ rest _
    cases b <;> rw [prettyAt, readValue.eq_def] <;> rfl
  | @whole depth n hlow hhigh =>
    intro level _
    cases n with
    | ofNat n => exact readsBack_ofNat length depth (Int.ofNat_lt.1 hhigh)
    | negSucc n => exact readsBack_neg length depth n.succ_pos (by omega)
  | double d => cases hwhole
  | string s =>
    intro level hlength rest _
    have hquoted := readQuoted_escaped s rest [] ((length_lt_quote s).trans hlength)
    rw [prettyAt, quote, List.cons_append, List.append_assoc, readValue.eq_def]
    show (readQuoted length _ []).map _ = _
    rw [List.singleton_append, hquoted]
    rfl
  | @array depth items h ih =>
    intro level hlength
    cases hwhole with
    | array hwhole =>
      rw [prettyAt, prettyItems_eq_map] at hlength ⊢
      refine readsBack_array ?_ hlength
      rw [List.forall₂_map_left_iff, List.forall₂_same]
      intro j hj
      have hitem := (lt_length_block '[' ']' level (items.map (prettyAt (level + 1)))).2
        (j.prettyAt (level + 1)) (List.mem_map_of_mem hj)
      exact ⟨starts_prettyAt (hwhole j hj) (level + 1),
        ih j hj (hwhole j hj) (level + 1) (hitem.trans hlength)⟩
  | @object depth fields hordered h ih =>
    intro level hlength
    cases hwhole with
    | object hwhole =>
      rw [prettyAt, prettyFields_eq_map] at hlength ⊢
      refine readsBack_object hordered ?_ hlength
      rw [List.forall₂_map_left_iff, List.forall₂_same]
      intro field hfield
      have hitem := (lt_length_block '{' '}' level (fields.map (fieldText (level + 1)))).2
        (fieldText (level + 1) field) (List.mem_map_of_mem hfield)
      have hkey := length_lt_quote field.1
      rw [fieldText, List.length_append, List.length_cons, List.length_cons] at hitem
      exact ⟨_, rfl, by omega, starts_prettyAt (hwhole field hfield) (level + 1),
        ih field hfield (hwhole field hfield) (level + 1) (by omega)⟩

/-! ## Documents -/

/-- A value that is read back from what is printed of it. -/
structure Printable (depth : Nat) (j : Json) : Prop where
  formed : Formed depth j
  whole : Whole j

namespace Printable

variable {depth : Nat} {key : Text} {value : Json} {fields : Fields}

theorem string (s : Text) : Printable depth (.string s) :=
  ⟨.string s, .string s⟩

theorem array {items : List Json} (h : ∀ j ∈ items, Printable depth j) :
    Printable (depth + 1) (.array items) :=
  ⟨.array fun j hj => (h j hj).formed, .array fun j hj => (h j hj).whole⟩

theorem object_iff : Printable (depth + 1) (.object fields) ↔
    Ordered fields ∧ ∀ field ∈ fields, Printable depth field.2 := by
  constructor
  · rintro ⟨hformed, hwhole⟩
    cases hformed with
    | object hordered hformed =>
      cases hwhole with
      | object hwhole =>
        exact ⟨hordered, fun field hfield => ⟨hformed field hfield, hwhole field hfield⟩⟩
  · rintro ⟨hordered, h⟩
    exact ⟨.object hordered fun field hfield => (h field hfield).formed,
      .object fun field hfield => (h field hfield).whole⟩

theorem lookup (h : Printable (depth + 1) (.object fields))
    (hvalue : Json.lookup key fields = some value) : Printable depth value :=
  (object_iff.1 h).2 _ (mem_of_lookup_eq_some hvalue)

theorem insertField (h : Printable (depth + 1) (.object fields)) (hvalue : Printable depth value) :
    Printable (depth + 1) (.object (insertField key value fields)) := by
  obtain ⟨hordered, hparts⟩ := object_iff.1 h
  refine object_iff.2 ⟨ordered_insertField key value hordered, fun field hfield => ?_⟩
  rcases mem_insertField key value hfield with rfl | hfield
  · exact hvalue
  · exact hparts field hfield

end Printable

/-- The pretty form of a document, with a line feed behind it, is a text of this document. -/
theorem read?_pretty {j : Json} (h : Printable maxDepth j) :
    read? (j.pretty ++ ['\n']) = some j := by
  have hstarts : Starts (j.pretty ++ ['\n']) := (starts_prettyAt h.whole 0).append _
  have hlength : j.pretty.length < (j.pretty ++ ['\n']).length + 1 := by
    rw [List.length_append]
    omega
  have hread : readValue ((j.pretty ++ ['\n']).length + 1) maxDepth (j.pretty ++ ['\n']) =
      some (j, ['\n']) := 
    readsBack_prettyAt _ h.formed h.whole 0 hlength ['\n'] (ends_newline 0 [])
  rw [read?, skipSpace_of_starts hstarts, hread]
  rfl

end Repath.Json
