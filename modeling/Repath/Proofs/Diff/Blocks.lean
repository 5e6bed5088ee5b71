/-
Lines with signs. A difference is printed as lines that are kept, gone or added; without the added
ones it gives the old lines, and without those that are gone the new ones. The blocks of a script
say the same as the script (`entries_blocks`), kept lines and changes take turns in them, and no
block is empty (`tidy_blocks`).
-/
import Repath.Diff.Unified
import Repath.Proofs.Diff.Script
import Mathlib.Data.List.Chain

namespace Repath.Diff

/-- How a line stands in a difference. -/
inductive Sign where
  | same
  | gone
  | added
deriving DecidableEq, Repr

def Sign.char : Sign → Char
  | same => ' '
  | gone => '-'
  | added => '+'

/-- A line with its sign. -/
abbrev Entry := Sign × Text

namespace Entry

/-- A line as it is printed. -/
def text (entry : Entry) : Text :=
  signedLine entry.1.char entry.2

def isSame (entry : Entry) : Bool :=
  entry.1 == .same

/-- The lines of the old side. -/
def old (entries : List Entry) : List Text :=
  (entries.filter fun entry => entry.1 != .added).map Prod.snd

/-- The lines of the new side. -/
def new (entries : List Entry) : List Text :=
  (entries.filter fun entry => entry.1 != .gone).map Prod.snd

@[simp] theorem old_append (es fs : List Entry) : old (es ++ fs) = old es ++ old fs := by
  simp [old]

@[simp] theorem new_append (es fs : List Entry) : new (es ++ fs) = new es ++ new fs := by
  simp [new]

end Entry

/-- Lines with one sign. -/
def signed (sign : Sign) (ls : List Text) : List Entry :=
  ls.map fun l => (sign, l)

@[simp] theorem signed_nil (sign : Sign) : signed sign [] = [] := rfl

@[simp] theorem signed_append (sign : Sign) (ls ms : List Text) :
    signed sign (ls ++ ms) = signed sign ls ++ signed sign ms := by
  simp [signed]

@[simp] theorem signed_eq_nil_iff {sign : Sign} {ls : List Text} : signed sign ls = [] ↔ ls = [] := by
  simp [signed]

@[simp] theorem length_signed (sign : Sign) (ls : List Text) :
    (signed sign ls).length = ls.length := by
  simp [signed]

@[simp] theorem old_signed (sign : Sign) (ls : List Text) :
    Entry.old (signed sign ls) = if sign = .added then [] else ls := by
  cases sign <;> simp [Entry.old, signed, List.filter_map, Function.comp_def]

@[simp] theorem new_signed (sign : Sign) (ls : List Text) :
    Entry.new (signed sign ls) = if sign = .gone then [] else ls := by
  cases sign <;> simp [Entry.new, signed, List.filter_map, Function.comp_def]

theorem isSame_of_mem_signed {sign : Sign} {ls : List Text} {e : Entry} (h : e ∈ signed sign ls) :
    e.isSame = (sign == .same) := by
  obtain ⟨l, -, rfl⟩ := List.mem_map.1 h
  rfl

namespace Block

/-- The lines of a block with their signs. -/
def entries : Block → List Entry
  | same ls => signed .same ls
  | change gone added => signed .gone gone ++ signed .added added

def isSame : Block → Bool
  | same _ => true
  | change _ _ => false

theorem text_eq (b : Block) : b.text = b.entries.flatMap Entry.text := by
  cases b <;> simp [text, entries, signed, Entry.text, Sign.char, List.flatMap_map]

theorem isSame_of_mem_entries {b : Block} {e : Entry} (h : e ∈ b.entries) :
    e.isSame = b.isSame := by
  cases b with
  | same ls => exact isSame_of_mem_signed h
  | change gone added =>
    rcases List.mem_append.1 h with h | h
    · exact isSame_of_mem_signed h
    · exact isSame_of_mem_signed h

end Block

/-- No block is empty, and kept lines and changes take turns. -/
structure Tidy (bs : List Block) : Prop where
  filled : ∀ b ∈ bs, b.entries ≠ []
  alternate : (bs.map Block.isSame).IsChain (· ≠ ·)

/-! ## The blocks of a script -/

theorem old_entries_merge (op : Op) (bs : List Block) :
    Entry.old ((Block.merge op bs).flatMap Block.entries) =
      op.old ++ Entry.old (bs.flatMap Block.entries) := by
  fun_cases Block.merge op bs <;> simp [Block.entries, Op.old]

theorem new_entries_merge (op : Op) (bs : List Block) :
    Entry.new ((Block.merge op bs).flatMap Block.entries) =
      op.new ++ Entry.new (bs.flatMap Block.entries) := by
  fun_cases Block.merge op bs <;> simp [Block.entries, Op.new]

/-- The blocks have the sides of their script. -/
theorem entries_blocks (script : Script) :
    Entry.old ((blocks script).flatMap Block.entries) = script.old ∧
      Entry.new ((blocks script).flatMap Block.entries) = script.new := by
  induction script with
  | nil => exact ⟨rfl, rfl⟩
  | cons op script ih =>
    have hblocks : blocks (op :: script) = Block.merge op (blocks script) := rfl
    rw [hblocks, old_entries_merge, new_entries_merge, ih.1, ih.2]
    simp

/-- A block of the other kind may be put in front. -/
theorem Tidy.cons {b : Block} {bs : List Block} (h : Tidy bs) (hb : b.entries ≠ [])
    (hkind : ∀ other rest, bs = other :: rest → other.isSame ≠ b.isSame) : Tidy (b :: bs) where
  filled := List.forall_mem_cons.2 ⟨hb, h.filled⟩
  alternate := by
    cases bs with
    | nil => exact .singleton _
    | cons other rest => exact .cons_cons (hkind other rest rfl).symm h.alternate

/-- Each block may be exchanged for one of its kind. -/
theorem Tidy.exchange {b other : Block} {as bs : List Block} (h : Tidy (as ++ b :: bs))
    (hother : other.entries ≠ []) (hkind : other.isSame = b.isSame) :
    Tidy (as ++ other :: bs) where
  filled := by
    have hfilled := h.filled
    simp only [List.forall_mem_append, List.forall_mem_cons] at hfilled ⊢
    exact ⟨hfilled.1, hother, hfilled.2.2⟩
  alternate := by
    have halternate := h.alternate
    rwa [List.map_append, List.map_cons, ← hkind, ← List.map_cons, ← List.map_append] at halternate

/-- The first block may take in more. -/
theorem Tidy.grow {b grown : Block} {bs : List Block} (h : Tidy (b :: bs))
    (hgrown : grown.entries ≠ []) (hkind : grown.isSame = b.isSame) : Tidy (grown :: bs) :=
  List.nil_append (grown :: bs) ▸ Tidy.exchange (List.nil_append (b :: bs) ▸ h) hgrown hkind

theorem Tidy.merge {op : Op} {bs : List Block} (hop : op.lines ≠ []) (h : Tidy bs) :
    Tidy (Block.merge op bs) := by
  fun_cases Block.merge op bs with
  | case1 ls ms rest =>
    have hls : ls ≠ [] := hop
    exact h.grow (by simp [Block.entries, hls]) rfl
  | case2 ls bs hkind =>
    have hls : ls ≠ [] := hop
    refine h.cons (by simp [Block.entries, hls]) fun other rest heq => ?_
    cases other with
    | same ms => exact absurd heq (hkind ms rest)
    | change gone added => exact Bool.false_ne_true
  | case3 ls gone added rest =>
    have hls : ls ≠ [] := hop
    exact h.grow (by simp [Block.entries, hls]) rfl
  | case4 ls bs hkind =>
    have hls : ls ≠ [] := hop
    refine h.cons (by simp [Block.entries, hls]) fun other rest heq => ?_
    cases other with
    | same ms => exact Bool.false_ne_true.symm
    | change gone added => exact absurd heq (hkind gone added rest)
  | case5 ls gone added rest =>
    have hls : ls ≠ [] := hop
    exact h.grow (by simp [Block.entries, hls]) rfl
  | case6 ls bs hkind =>
    have hls : ls ≠ [] := hop
    refine h.cons (by simp [Block.entries, hls]) fun other rest heq => ?_
    cases other with
    | same ms => exact Bool.false_ne_true.symm
    | change gone added => exact absurd heq (hkind gone added rest)

theorem tidy_blocks {script : Script} (h : script.Busy) : Tidy (blocks script) := by
  induction script with
  | nil => exact ⟨by simp [blocks], by simp [blocks]⟩
  | cons op script ih =>
    obtain ⟨hop, hscript⟩ := Script.busy_cons.1 h
    exact (ih hscript).merge hop

end Repath.Diff
