/-
Two kinds of globs for watched paths: `**/*s` for the paths that end in a name `s`, and `**/d/**` for
the paths with a folder `d` in them. Each is read into the tokens one expects, how it is looked up
follows from these, and so does what it matches (`isMatch_ending_iff`, `isMatch_folder_iff`).
-/
import Repath.Proofs.Glob.ByteTokens
import Repath.Proofs.Utf8

namespace Repath.Glob

/-! ## Patterns -/

/-- Letters and digits, points, underscores and tildes. -/
def isNameChar (c : Char) : Bool :=
  ('a' ≤ c && c ≤ 'z') || ('A' ≤ c && c ≤ 'Z') || ('0' ≤ c && c ≤ '9') ||
    c == '.' || c == '_' || c == '~'

/-- A name of such characters. -/
structure PlainName where
  text : Text
  filled : text ≠ []
  plain : text.all isNameChar = true

namespace PlainName

theorem isNameChar_of_mem (name : PlainName) {c : Char} (h : c ∈ name.text) :
    isNameChar c = true :=
  List.all_eq_true.1 name.plain c h

/-- The bytes of a name. -/
def bytes (name : PlainName) : Bytes :=
  Utf8.encode name.text

/-- The pattern of paths that end in a name. -/
def endingPattern (name : PlainName) : Text :=
  "**/*".toList ++ name.text

/-- The pattern of paths with a folder of a name in them. -/
def folderPattern (name : PlainName) : Text :=
  "**/".toList ++ (name.text ++ "/**".toList)

end PlainName

/-! ## Reading -/

/-- The characters that mean something in a pattern. -/
def specials : List Char := ['?', '*', '[', '\x7b', '\x7d', ',', '\\']

/-- A text as tokens. -/
def literals (t : Text) : List ByteToken :=
  t.map fun c => .literal (String.utf8EncodeChar c)

/-- The glob of paths that end in a name. -/
def PlainName.endingGlob (name : PlainName) : ByteGlob :=
  ⟨.leading :: .star :: literals name.text⟩

/-- The glob of paths with a folder of a name in them. -/
def PlainName.folderGlob (name : PlainName) : ByteGlob :=
  ⟨.leading :: (literals name.text ++ [.trailing])⟩

theorem notMem_specials {c : Char} (h : isNameChar c = true) : c ∉ specials := by
  intro hc
  simp only [specials, List.mem_cons, List.not_mem_nil, or_false] at hc
  obtain rfl | rfl | rfl | rfl | rfl | rfl | rfl := hc
  all_goals exact absurd h (by decide)

theorem val_le_of_isNameChar {c : Char} (h : isNameChar c = true) : c.val ≤ 127 := by
  simp only [isNameChar, Bool.or_eq_true, Bool.and_eq_true, decide_eq_true_eq, beq_iff_eq] at h
  obtain ((((⟨-, h⟩ | ⟨-, h⟩) | ⟨-, h⟩) | rfl) | rfl) | rfl := h
  · exact UInt32.le_trans h (by decide)
  · exact UInt32.le_trans h (by decide)
  · exact UInt32.le_trans h (by decide)
  all_goals decide

theorem readGlob_ordinary {c : Char} (hc : c ∉ specials) (turns : Nat) (rest : Text)
    (state : GlobState) :
    readGlob (turns + 1) (c :: rest) state = readGlob turns rest (state.literal c) := by
  simp only [specials, List.mem_cons, List.not_mem_nil, or_false, not_or] at hc
  simp only [readGlob, hc, if_false]

theorem readGlob_append : ∀ (t : Text), (∀ c ∈ t, c ∉ specials) →
    ∀ (turns : Nat) (rest : Text) (state : GlobState),
      readGlob (t.length + turns) (t ++ rest) state =
        readGlob turns rest (t.foldl GlobState.literal state)
  | [], _, turns, rest, state => by rw [List.length_nil, Nat.zero_add]; rfl
  | c :: t, h, turns, rest, state => by
    rw [List.length_cons, Nat.add_right_comm, List.cons_append,
      readGlob_ordinary (h c List.mem_cons_self),
      readGlob_append t fun c hc => h c (List.mem_cons_of_mem _ hc)]
    rfl

theorem foldl_literal (t : Text) (state : GlobState) :
    (t.foldl GlobState.literal state).tokens = (literals t).reverse ++ state.tokens ∧
      (t.foldl GlobState.literal state).braces = state.braces := by
  induction t generalizing state with
  | nil => exact ⟨rfl, rfl⟩
  | cons c t ih =>
    obtain ⟨htokens, hbraces⟩ := ih (state.literal c)
    rw [List.foldl_cons, htokens, hbraces]
    simp [literals, GlobState.literal, GlobState.push]

/-- The state behind two stars and a slash at the start. -/
def GlobState.behindStars : GlobState :=
  ({} : GlobState).push .leading '/'

theorem readGlob_leading (turns : Nat) (rest : Text) :
    readGlob (turns + 1) ('*' :: '*' :: '/' :: rest) {} = readGlob turns rest .behindStars := by
  simp [readGlob, GlobState.stars, GlobState.behindStars]

theorem readGlob_star {rest : Text} (h : rest.head? ≠ some '*') (turns : Nat) (state : GlobState) :
    readGlob (turns + 1) ('*' :: rest) state = readGlob turns rest (state.push .star '*') := by
  cases rest with
  | nil => simp [readGlob]
  | cons c rest =>
    have hc : c ≠ '*' := fun heq => h (congrArg some heq)
    simp [readGlob, hc]

theorem readGlob_trailing (turns : Nat) (state : GlobState) (hbraces : state.braces = []) :
    readGlob (turns + 2) "/**".toList state = .ok (state.tokens.reverse ++ [.trailing]) := by
  simp [readGlob, GlobState.literal, GlobState.push, GlobState.stars, GlobState.folders, hbraces]

namespace PlainName

theorem notMem_specials_of_mem (name : PlainName) : ∀ c ∈ name.text, c ∉ specials :=
  fun _ hc => notMem_specials (name.isNameChar_of_mem hc)

theorem read_ending (name : PlainName) :
    ByteGlob.read name.endingPattern = .ok name.endingGlob := by
  have hhead : name.text.head? ≠ some '*' := fun hstar =>
    name.notMem_specials_of_mem '*' (List.mem_of_head? hstar) (by decide)
  have hpattern : name.endingPattern = '*' :: '*' :: '/' :: '*' :: (name.text ++ []) := by
    rw [List.append_nil]
    rfl
  have hlength : name.endingPattern.length = name.text.length + 2 + 1 + 1 := by
    rw [hpattern, List.append_nil]
    rfl
  obtain ⟨htokens, hbraces⟩ := foldl_literal name.text (GlobState.behindStars.push .star '*')
  rw [ByteGlob.read, hlength, hpattern, readGlob_leading, readGlob_star (by simpa using hhead),
    readGlob_append _ name.notMem_specials_of_mem, readGlob, hbraces, htokens]
  simp [GlobState.behindStars, GlobState.push, Except.map, endingGlob]

theorem read_folder (name : PlainName) :
    ByteGlob.read name.folderPattern = .ok name.folderGlob := by
  have hpattern : name.folderPattern = '*' :: '*' :: '/' :: (name.text ++ "/**".toList) := rfl
  -- there are turns to spare: two stars take a single one
  have hlength : name.folderPattern.length = name.text.length + (3 + 2) + 1 := by
    rw [hpattern]
    simp
  obtain ⟨htokens, hbraces⟩ := foldl_literal name.text GlobState.behindStars
  rw [ByteGlob.read, hlength, hpattern, readGlob_leading,
    readGlob_append _ name.notMem_specials_of_mem, readGlob_trailing _ _ hbraces, htokens]
  simp [GlobState.behindStars, GlobState.push, Except.map, folderGlob]

end PlainName

/-! ## Covering -/

/-- A path goes through a folder: the folder stands in it up to a slash, from the start or behind a
slash. -/
def HoldsFolder (path folder : Bytes) : Prop :=
  ∃ before behind, path = before ++ folder ++ slash :: behind ∧
    (before = [] ∨ before.getLast? = some slash)

theorem allAdmit_cons {token : ByteToken} {tokens : List ByteToken} {piece : Bytes} :
    AllAdmit (token :: tokens) piece ↔
      ∃ first behind, piece = first ++ behind ∧ token.Admits first ∧ AllAdmit tokens behind :=
  Iff.rfl

theorem allAdmit_literals (t : Text) (tokens : List ByteToken) (piece : Bytes) :
    AllAdmit (literals t ++ tokens) piece ↔
      ∃ behind, piece = Utf8.encode t ++ behind ∧ AllAdmit tokens behind := by
  induction t generalizing piece with
  | nil => simp [literals, Utf8.encode]
  | cons c t ih =>
    have hcons : literals (c :: t) ++ tokens =
        .literal (String.utf8EncodeChar c) :: (literals t ++ tokens) := rfl
    rw [hcons, allAdmit_cons]
    simp only [ih, ByteToken.Admits]
    constructor
    · rintro ⟨_, _, rfl, rfl, behind, rfl, hbehind⟩
      exact ⟨behind, by simp [Utf8.encode], hbehind⟩
    · rintro ⟨behind, rfl, hbehind⟩
      exact ⟨_, _, by simp [Utf8.encode], rfl, behind, rfl, hbehind⟩

namespace PlainName

theorem covers_ending_iff (name : PlainName) (path : Bytes) :
    name.endingGlob.covers path = true ↔ name.bytes <:+ path := by
  rw [ByteGlob.covers_iff, endingGlob, or_iff_right (by simp), allAdmit_cons]
  simp only [allAdmit_cons, ByteToken.Admits, true_and]
  constructor
  · rintro ⟨first, _, rfl, -, some, ending, rfl, hending⟩
    rw [← List.append_nil (literals name.text), allAdmit_literals] at hending
    obtain ⟨_, rfl, rfl⟩ := hending
    exact ⟨first ++ some, by simp [bytes]⟩
  · rintro ⟨start, rfl⟩
    refine ⟨[], _, rfl, .inl rfl, start, _, rfl, ?_⟩
    rw [← List.append_nil (literals name.text), allAdmit_literals]
    exact ⟨[], (List.append_nil _).symm, rfl⟩

theorem covers_folder_iff (name : PlainName) (path : Bytes) :
    name.folderGlob.covers path = true ↔ HoldsFolder path name.bytes := by
  rw [ByteGlob.covers_iff, folderGlob, or_iff_right (by simp), allAdmit_cons]
  simp only [allAdmit_literals, allAdmit_cons, ByteToken.Admits, List.head?_eq_some_iff]
  constructor
  · rintro ⟨before, _, rfl, hbefore, _, rfl, _, _, rfl, ⟨behind, rfl⟩, rfl⟩
    exact ⟨before, behind, by simp [bytes], hbefore⟩
  · rintro ⟨before, behind, rfl, hbefore⟩
    exact ⟨before, _, List.append_assoc _ _ _, hbefore, _, rfl, slash :: behind, [],
      (List.append_nil _).symm, ⟨behind, rfl⟩, rfl⟩

end PlainName

/-! ## Looking up -/

theorem literalBytes?_literals (t : Text) : literalBytes? (literals t) = some (Utf8.encode t) := by
  simp [literalBytes?, literals, ByteToken.literalBytes?, Utf8.encode, List.flatMap_map]

theorem literalBytes?_eq_none {tokens : List ByteToken} {token : ByteToken} (h : token ∈ tokens)
    (htoken : token.literalBytes? = none) : literalBytes? tokens = none := by
  unfold literalBytes?
  rw [if_neg]
  simp only [List.all_eq_true, not_forall]
  exact ⟨token, h, by simp [htoken]⟩

namespace PlainName

theorem slash_notMem_bytes (name : PlainName) : slash ∉ name.bytes := by
  rw [bytes, Utf8.mem_encode_iff (by decide)]
  intro hslash
  exact absurd (name.isNameChar_of_mem hslash) (by decide)

theorem length_bytes (name : PlainName) : name.bytes.length = name.text.length := by
  have hone : ∀ c ∈ name.text, (String.utf8EncodeChar c).length = 1 := fun c hc => by
    rw [String.length_utf8EncodeChar, Char.utf8Size_eq_one_iff]
    exact val_le_of_isNameChar (name.isNameChar_of_mem hc)
  rw [bytes, Utf8.encode, List.length_flatMap, List.map_congr_left hone, List.map_const']
  simp

theorem bytes_ne_nil (name : PlainName) : name.bytes ≠ [] := by
  intro hnil
  exact name.filled (Utf8.encode_injective hnil)

theorem getLast?_literals (name : PlainName) (tokens : List ByteToken) :
    ∃ bytes, (tokens ++ literals name.text).getLast? = some (.literal bytes) := by
  obtain ⟨front, last, hlast⟩ := List.eq_nil_or_concat' name.text |>.resolve_left name.filled
  exact ⟨String.utf8EncodeChar last, by simp [literals, hlast]⟩

/-- An extension is looked up under the file name, any other ending at the end of the path. -/
theorem lookup_ending (name : PlainName) :
    name.endingGlob.lookup = if isExtension name.bytes then .byName else .byText := by
  have hrest : literalBytes? (.star :: literals name.text) = none :=
    literalBytes?_eq_none List.mem_cons_self rfl
  obtain ⟨last, hlast⟩ := name.getLast?_literals [.leading, .star]
  have hstart : startBytes? (.leading :: .star :: literals name.text) = none := by
    rw [startBytes?, show ByteToken.leading :: .star :: literals name.text =
      [.leading, .star] ++ literals name.text from rfl, hlast]
  have hslash : name.bytes ≠ [slash] := fun heq =>
    name.slash_notMem_bytes (heq ▸ List.mem_singleton_self slash)
  have hbytes : literalBytes? (literals name.text) = some name.bytes :=
    literalBytes?_literals name.text
  have hplain : ¬(name.bytes.isEmpty || name.bytes == [slash]) = true := by
    simp [name.bytes_ne_nil, hslash]
  simp only [ByteGlob.lookup, endingGlob, hrest, lookupOf, hstart, hbytes, if_neg hplain]

/-- No expression is tried for an ending. -/
theorem lookup_ending_ne (name : PlainName) :
    name.endingGlob.lookup ≠ .byExtension ∧ name.endingGlob.lookup ≠ .byExpression := by
  rw [lookup_ending]
  split <;> simp

theorem lookup_folder (name : PlainName) : name.folderGlob.lookup = .byExpression := by
  have hrest : literalBytes? (literals name.text ++ [.trailing]) = none :=
    literalBytes?_eq_none (List.mem_append_right _ (List.mem_singleton_self ByteToken.trailing)) rfl
  have hfront : literalBytes? (.leading :: literals name.text) = none :=
    literalBytes?_eq_none List.mem_cons_self rfl
  have hstart : startBytes? (.leading :: (literals name.text ++ [.trailing])) = none := by
    rw [startBytes?, ← List.cons_append, List.getLast?_concat, List.dropLast_concat, hfront]
    rfl
  have htried : endInExtension (.leading :: (literals name.text ++ [.trailing])).reverse = false := by
    simp [endInExtension]
  obtain ⟨c, t, htext⟩ := List.exists_cons_of_ne_nil name.filled
  simp only [ByteGlob.lookup, folderGlob, hrest, lookupOf, hstart, htried]
  rw [htext]
  rfl

end PlainName

/-! ## Matching -/

/-- The last component of a path is two points. -/
def PointsLast (path : Bytes) : Prop :=
  path = [point, point] ∨ [slash, point, point] <:+ path

theorem hasFileName_eq_false_iff (path : Bytes) : hasFileName path = false ↔ PointsLast path := by
  have hne : point ≠ slash := by decide
  unfold hasFileName PointsLast
  rw [bne_eq_false_iff_eq, ← List.reverse_prefix, ← @List.reverse_inj _ path]
  generalize path.reverse = back
  constructor
  · intro htake
    have hparts := List.takeWhile_append_dropWhile (p := (· != slash)) (l := back)
    rw [htake] at hparts
    cases hdrop : back.dropWhile (· != slash) with
    | nil => exact .inl (by rw [← hparts, hdrop]; rfl)
    | cons b rest =>
      have hb := List.head?_dropWhile_not (· != slash) back
      rw [hdrop, List.head?_cons] at hb
      obtain rfl : b = slash := by simpa using hb
      exact .inr ⟨rest, by rw [← hparts, hdrop]; rfl⟩
  · rintro (rfl | ⟨rest, rfl⟩)
    · rfl
    · simp [hne]

theorem PointsLast.getLast? {path : Bytes} (h : PointsLast path) : path.getLast? = some point := by
  obtain rfl | ⟨front, rfl⟩ := h
  · rfl
  · simp

/-- A path that ends in an extension has a file name, if the extension is more than a point. -/
theorem not_pointsLast_of_isExtension {ending path : Bytes} (h : isExtension ending = true)
    (hmore : ending ≠ [point]) (hsuffix : ending <:+ path) : ¬PointsLast path := by
  intro hlast
  obtain ⟨front, rfl⟩ := hsuffix
  cases ending with
  | nil => exact Bool.false_ne_true h
  | cons b rest =>
    simp only [isExtension, Bool.and_eq_true, beq_iff_eq, Bool.not_eq_true',
      List.contains_eq_mem, decide_eq_false_iff_not] at h
    obtain ⟨⟨rfl, hpoint⟩, -⟩ := h
    have hrest : rest ≠ [] := fun hnil => hmore (hnil ▸ rfl)
    have hget := hlast.getLast?
    rw [List.getLast?_append_of_ne_nil _ (List.cons_ne_nil _ _),
      List.getLast?_cons_of_ne_nil hrest] at hget
    exact hpoint (List.mem_of_getLast? hget)

namespace PlainName

theorem text_eq_point_iff (name : PlainName) : name.text = ['.'] ↔ name.bytes = [point] :=
  ⟨fun h => by rw [bytes, h]; rfl, fun h => Utf8.encode_injective h⟩

theorem isMatch_ending_iff (name : PlainName) (path : Bytes) :
    name.endingGlob.isMatch path = true ↔
      name.bytes <:+ path ∧ ¬(name.text = ['.'] ∧ PointsLast path) := by
  rw [ByteGlob.isMatch, Bool.and_eq_true, covers_ending_iff, and_comm, lookup_ending,
    text_eq_point_iff]
  refine and_congr_right fun hsuffix => ?_
  cases hext : isExtension name.bytes with
  | false =>
    -- looked up by the end of the path, whatever its last component
    have hmore : name.bytes ≠ [point] := fun heq => by
      rw [heq] at hext
      exact Bool.false_ne_true hext.symm
    exact iff_of_true (Bool.or_true _) fun h => hmore h.1
  | true =>
    rw [if_pos rfl, Lookup.usesName, Bool.not_true, Bool.or_false]
    by_cases hpoint : name.bytes = [point]
    · rw [← hasFileName_eq_false_iff, and_iff_right hpoint, Bool.not_eq_false]
    · have hnot := not_pointsLast_of_isExtension hext hpoint hsuffix
      rw [← hasFileName_eq_false_iff, Bool.not_eq_false] at hnot
      exact iff_of_true hnot fun h => hpoint h.1

theorem isMatch_folder_iff (name : PlainName) (path : Bytes) :
    name.folderGlob.isMatch path = true ↔ HoldsFolder path name.bytes := by
  rw [ByteGlob.isMatch, lookup_folder, Lookup.usesName, Bool.not_false, Bool.or_true,
    Bool.true_and, covers_folder_iff]

end PlainName

end Repath.Glob
