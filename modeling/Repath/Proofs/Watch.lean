/-
What a watch filter accepts. The patterns are endings, folders and patterns that are refused; the
folder globs of a list are compiled together, and a list whose matcher is too big is not used at
all. Otherwise a path passes if some wanted pattern selects it and no unwanted one does
(`acceptsBytes_iff`), whatever the order of the patterns.
-/
import Repath.Watch
import Repath.Proofs.Glob.MatcherSize

namespace Repath

open Glob

/-! ## Patterns -/

/-- A pattern of a watch filter: the paths that end in a name, the paths with a folder of a name in
them, or one that is refused. -/
inductive WatchPattern where
  | ending (name : PlainName)
  | folder (name : PlainName)
  | refused (pattern : Text) (fault : GlobFault) (h : ByteGlob.read pattern = .error fault)

namespace WatchPattern

def text : WatchPattern → Text
  | ending name => name.endingPattern
  | folder name => name.folderPattern
  | refused pattern _ _ => pattern

/-- The paths of a pattern. Two points at the end of a path are not an ending of one point. -/
def Selects : WatchPattern → Bytes → Prop
  | ending name, path => name.bytes <:+ path ∧ ¬(name.text = ['.'] ∧ PointsLast path)
  | folder name, path => HoldsFolder path name.bytes
  | refused .., _ => False

/-- The name of a folder pattern. -/
def folderName? : WatchPattern → Option PlainName
  | folder name => some name
  | ending _ => none
  | refused .. => none

/-- The folder patterns of a list can be compiled together. -/
def Fit (patterns : List WatchPattern) : Prop :=
  folderMatcherBytes ((patterns.filterMap folderName?).map (·.text.length)) ≤ matcherLimit

instance (patterns : List WatchPattern) : Decidable (Fit patterns) :=
  inferInstanceAs (Decidable (_ ≤ _))

/-- The glob of a pattern that is not refused. -/
def glob? : WatchPattern → Option ByteGlob
  | ending name => some name.endingGlob
  | folder name => some name.folderGlob
  | refused .. => none

theorem toOption_read_text (pattern : WatchPattern) :
    (ByteGlob.read pattern.text).toOption = pattern.glob? := by
  cases pattern with
  | ending name => rw [text, name.read_ending]; rfl
  | folder name => rw [text, name.read_folder]; rfl
  | refused pattern fault h => rw [text, h]; rfl

theorem selects_iff (pattern : WatchPattern) (path : Bytes) :
    pattern.Selects path ↔ ∃ glob, pattern.glob? = some glob ∧ glob.isMatch path = true := by
  cases pattern with
  | ending name =>
    simp only [glob?, Option.some.injEq, exists_eq_left']
    exact (name.isMatch_ending_iff path).symm
  | folder name =>
    simp only [glob?, Option.some.injEq, exists_eq_left']
    exact (name.isMatch_folder_iff path).symm
  | refused => simp [glob?, Selects]

theorem lookup_ne_byExtension {pattern : WatchPattern} {glob : ByteGlob}
    (h : pattern.glob? = some glob) : glob.lookup ≠ .byExtension := by
  cases pattern with
  | ending name =>
    cases h
    exact name.lookup_ending_ne.1
  | folder name =>
    cases h
    rw [name.lookup_folder]
    simp
  | refused => cases h

/-- An expression is tried for folders alone. -/
theorem filter_byExpression (patterns : List WatchPattern) :
    (patterns.filterMap glob?).filter (·.lookup = .byExpression) =
      (patterns.filterMap folderName?).map PlainName.folderGlob := by
  induction patterns with
  | nil => rfl
  | cons pattern patterns ih =>
    cases pattern with
    | ending name =>
      simpa [List.filterMap_cons, glob?, folderName?, name.lookup_ending_ne.2] using ih
    | folder name => simpa [List.filterMap_cons, glob?, folderName?, name.lookup_folder] using ih
    | refused => simpa [List.filterMap_cons, glob?, folderName?] using ih

theorem globsFault?_eq_none_iff (patterns : List WatchPattern) :
    globsFault? (patterns.filterMap glob?) = none ↔ Fit patterns := by
  have hsingle : (patterns.filterMap glob?).filter (·.lookup = .byExtension) = [] := by
    rw [List.filter_eq_nil_iff]
    intro glob hglob
    obtain ⟨pattern, -, hpattern⟩ := List.mem_filterMap.1 hglob
    simpa using lookup_ne_byExtension hpattern
  have hlengths : (patterns.filterMap folderName?).map (·.bytes.length) =
      (patterns.filterMap folderName?).map (·.text.length) :=
    List.map_congr_left fun name _ => name.length_bytes
  rw [globsFault?, hsingle, filter_byExpression]
  simp only [List.findSome?_nil, Option.map_eq_none_iff]
  rw [compileFault?_folders_iff, hlengths, Fit]

end WatchPattern

open WatchPattern

namespace WatchFilter

theorem readable_map_text (patterns : List WatchPattern) :
    readable (patterns.map text) = patterns.filterMap glob? := by
  rw [readable, List.filterMap_map]
  exact List.filterMap_congr fun pattern _ => pattern.toOption_read_text

/-- The globs that are used select what a pattern selects, if the patterns fit. -/
theorem any_globs_iff (patterns : List WatchPattern) (path : Bytes) :
    (globs (patterns.map text)).any (·.isMatch path) = true ↔
      Fit patterns ∧ ∃ pattern ∈ patterns, pattern.Selects path := by
  have hany : (patterns.filterMap glob?).any (·.isMatch path) = true ↔
      ∃ pattern ∈ patterns, pattern.Selects path := by
    simp only [List.any_eq_true, List.mem_filterMap, selects_iff]
    exact ⟨fun ⟨glob, ⟨pattern, hmem, hglob⟩, hmatch⟩ => ⟨pattern, hmem, glob, hglob, hmatch⟩,
      fun ⟨pattern, hmem, glob, hglob, hmatch⟩ => ⟨glob, ⟨pattern, hmem, hglob⟩, hmatch⟩⟩
  -- that the globs can be used together is a matter of the folder names alone
  have hglobs : globs (patterns.map text) =
      if Fit patterns then patterns.filterMap glob? else [] := by
    simp only [globs, readable_map_text, Option.isNone_iff_eq_none, globsFault?_eq_none_iff]
  rw [hglobs]
  split
  · rename_i hfit
    rw [hany, and_iff_right hfit]
  · rename_i hfit
    exact iff_of_false (by simp) fun h => hfit h.1

theorem acceptsBytes_iff (wanted unwanted : List WatchPattern) (path : Bytes) :
    (ofPatterns (wanted.map text) (unwanted.map text)).acceptsBytes path = true ↔
      (wanted = [] ∨ Fit wanted ∧ ∃ pattern ∈ wanted, pattern.Selects path) ∧
        ¬(Fit unwanted ∧ ∃ pattern ∈ unwanted, pattern.Selects path) := by
  rw [acceptsBytes, Bool.and_eq_true, Bool.not_eq_true', and_comm, ← Bool.not_eq_true]
  refine and_congr ?_ (not_congr (any_globs_iff unwanted path))
  cases wanted with
  | nil => simp [ofPatterns]
  | cons pattern wanted =>
    rw [or_iff_right (List.cons_ne_nil _ _)]
    exact any_globs_iff (pattern :: wanted) path

/-! ## Folders -/

theorem intercalate_append_cons (name : Bytes) {rest : List Bytes} (hrest : rest ≠ []) :
    ∀ front : List Bytes, ∃ before, (before = [] ∨ before.getLast? = some slash) ∧
      [slash].intercalate (front ++ name :: rest) =
        before ++ name ++ slash :: [slash].intercalate rest
  | [] => by
    obtain ⟨next, rest, rfl⟩ := List.exists_cons_of_ne_nil hrest
    exact ⟨[], .inl rfl, by simp⟩
  | first :: front => by
    obtain ⟨before, hbefore, heq⟩ := intercalate_append_cons name hrest front
    refine ⟨first ++ slash :: before, .inr ?_, ?_⟩
    · rw [List.getLast?_append_cons]
      obtain rfl | hlast := hbefore
      · rfl
      · rw [List.getLast?_cons, hlast]
        rfl
    · obtain ⟨next, others, hothers⟩ := List.exists_cons_of_ne_nil
        (List.append_ne_nil_of_right_ne_nil front (List.cons_ne_nil name rest))
      rw [List.cons_append, hothers, List.intercalate_cons_cons, ← hothers, heq]
      simp

/-- A folder of a path is a component before its last slash. -/
theorem mem_dropLast_splitOn_iff {name : Bytes} (hname : slash ∉ name) (path : Bytes) :
    name ∈ (path.splitOn slash).dropLast ↔ HoldsFolder path name := by
  constructor
  · intro hmem
    obtain ⟨front, rest, hfront⟩ := List.append_of_mem hmem
    have hsplit := List.dropLast_append_getLast (List.splitOn_ne_nil slash path)
    rw [hfront, List.append_assoc, List.cons_append] at hsplit
    obtain ⟨before, hbefore, hpath⟩ := intercalate_append_cons name
      (List.append_ne_nil_of_right_ne_nil rest (List.cons_ne_nil _ [])) front
    rw [hsplit, List.intercalate_splitOn] at hpath
    exact ⟨before, _, hpath, hbefore⟩
  · rintro ⟨before, behind, rfl, hbefore⟩
    have hmem (front : List Bytes) :
        name ∈ (front ++ (name ++ slash :: behind).splitOn slash).dropLast := by
      have hbehind := List.splitOn_ne_nil slash behind
      rw [List.splitOn_append_cons_self, List.splitOn_eq_singleton hname, ← List.append_assoc,
        List.dropLast_append_of_ne_nil hbehind]
      simp
    rw [List.append_assoc]
    obtain rfl | hlast := hbefore
    · exact hmem []
    · obtain ⟨front, rfl⟩ := List.getLast?_eq_some_iff.1 hlast
      rw [List.append_assoc, List.singleton_append, List.splitOn_append_cons_self]
      exact hmem _

/-! ## The default filter -/

theorem getLast?_of_suffix {ending path : Bytes} (h : ending <:+ path) (hne : ending ≠ []) :
    path.getLast? = ending.getLast? := by
  obtain ⟨front, rfl⟩ := h
  exact List.getLast?_append_of_ne_nil front hne

/-- The patterns that are wanted if none are given. -/
def defaultEndings : List WatchPattern :=
  [.ending ⟨".go".toList, by decide, by decide⟩]

/-- The patterns that are unwanted if none are given. -/
def defaultExclusions : List WatchPattern :=
  [.folder ⟨".git".toList, by decide, by decide⟩, .ending ⟨".tmp".toList, by decide, by decide⟩,
    .ending ⟨"~".toList, by decide, by decide⟩]

theorem exists_defaultEndings_iff (path : Bytes) :
    (∃ pattern ∈ defaultEndings, pattern.Selects path) ↔ Utf8.encode ".go".toList <:+ path := by
  simp [defaultEndings, Selects, PlainName.bytes]

/-- Of the unwanted patterns the endings do not matter for Go sources. -/
theorem exists_defaultExclusions_iff {path : Bytes} (h : Utf8.encode ".go".toList <:+ path) :
    (∃ pattern ∈ defaultExclusions, pattern.Selects path) ↔
      Utf8.encode ".git".toList ∈ (path.splitOn slash).dropLast := by
  have hgo := getLast?_of_suffix h (by decide)
  have hother {ending : Bytes} (hne : ending ≠ [])
      (hlast : (Utf8.encode ".go".toList).getLast? ≠ ending.getLast?) : ¬ending <:+ path :=
    fun hsuffix => hlast (hgo.symm.trans (getLast?_of_suffix hsuffix hne))
  rw [mem_dropLast_splitOn_iff (by decide)]
  constructor
  · rintro ⟨pattern, hmem, hselects⟩
    simp only [defaultExclusions, List.mem_cons, List.not_mem_nil, or_false] at hmem
    obtain rfl | rfl | rfl := hmem
    · exact hselects
    · exact absurd hselects.1 (hother (by decide) (by decide))
    · exact absurd hselects.1 (hother (by decide) (by decide))
  · exact fun hfolder => ⟨_, List.mem_cons_self, hfolder⟩

theorem acceptsBytes_default_iff (path : Bytes) :
    (ofPatterns defaultWanted defaultUnwanted).acceptsBytes path = true ↔
      Utf8.encode ".go".toList <:+ path ∧
        Utf8.encode ".git".toList ∉ (path.splitOn slash).dropLast := by
  have hpatterns : ofPatterns defaultWanted defaultUnwanted =
      ofPatterns (defaultEndings.map text) (defaultExclusions.map text) := rfl
  have hsome : defaultEndings ≠ [] := List.cons_ne_nil _ _
  have hfit : Fit defaultEndings ∧ Fit defaultExclusions := by decide
  rw [hpatterns, acceptsBytes_iff, or_iff_right hsome, and_iff_right hfit.1, and_iff_right hfit.2,
    exists_defaultEndings_iff]
  exact and_congr_right fun hgo => not_congr (exists_defaultExclusions_iff hgo)

/-! ## What is accepted -/

theorem fit_folder_iff (name : PlainName) : Fit [.folder name] ↔ name.text.length ≤ 327659 := by
  have hbytes : folderMatcherBytes [name.text.length] = 656 + 32 * name.text.length := by
    have hone : folderMatcherBytes [name.text.length] = 32 + 0 + (624 + 32 * name.text.length + 0) :=
      rfl
    omega
  have hfit : Fit [.folder name] ↔ folderMatcherBytes [name.text.length] ≤ 10485760 := Iff.rfl
  rw [hfit, hbytes]
  omega

/-- What a filter accepts, by the bytes of the path. -/
theorem acceptsBytes_exact (name : PlainName) (wanted unwanted : List WatchPattern) (path : Bytes) :
    ((ofPatterns [name.endingPattern] []).acceptsBytes path = true ↔
        name.bytes <:+ path ∧ ¬(name.text = ['.'] ∧ PointsLast path)) ∧
      ((ofPatterns [] [name.folderPattern]).acceptsBytes path = false ↔
        name.text.length ≤ 327659 ∧ ∃ before behind, path = before ++ name.bytes ++ slash :: behind ∧
          (before = [] ∨ before.getLast? = some slash)) ∧
      ((ofPatterns (wanted.map text) (unwanted.map text)).acceptsBytes path = true ↔
        (wanted = [] ∨ Fit wanted ∧ ∃ pattern ∈ wanted, pattern.Selects path) ∧
          ¬(Fit unwanted ∧ ∃ pattern ∈ unwanted, pattern.Selects path)) ∧
      ((ofPatterns defaultWanted defaultUnwanted).acceptsBytes path = true ↔
        Utf8.encode ".go".toList <:+ path ∧
          Utf8.encode ".git".toList ∉ (path.splitOn slash).dropLast) := by
  have hending := acceptsBytes_iff [.ending name] [] path
  have hfolder := acceptsBytes_iff [] [.folder name] path
  refine ⟨?_, ?_, acceptsBytes_iff wanted unwanted path, acceptsBytes_default_iff path⟩
  · have hfit : Fit [.ending name] := by
      show folderMatcherBytes [] ≤ matcherLimit
      decide
    simpa [hfit, Selects, text] using hending
  · simp only [fit_folder_iff, List.mem_singleton, exists_eq_left, true_or, true_and] at hfolder
    rw [← Bool.not_eq_true]
    exact (not_congr hfolder).trans not_not

/-- A name that is too long for a folder pattern. -/
def longName : PlainName where
  text := List.replicate 400000 'a'
  filled h := absurd ((List.replicate_eq_nil_iff 'a').1 h) (by decide)
  plain := List.all_eq_true.2 fun c hc => List.eq_of_mem_replicate hc ▸ rfl

/-- Two points end in a point but do not pass as a path that does, and a folder pattern with too
long a name keeps nothing out. -/
theorem acceptsBytes_limits :
    ([point] <:+ [point, point] ∧
        (ofPatterns ["**/*.".toList] []).acceptsBytes [point, point] = false) ∧
      (ofPatterns [] [longName.folderPattern]).acceptsBytes (longName.bytes ++ slash :: [0x78]) =
        true := by
  refine ⟨⟨by decide, ?_⟩, ?_⟩
  · decide
  · have hfolder := acceptsBytes_iff [] [.folder longName] (longName.bytes ++ slash :: [0x78])
    refine hfolder.2 ⟨.inl rfl, fun h => ?_⟩
    have hlength := (fit_folder_iff longName).1 h.1
    rw [longName, List.length_replicate] at hlength
    omega

end WatchFilter

end Repath
