import MergeConflict.Patch

/-!
Widening hunks to whole conflict blocks.

The hunks that meet a block become one patch over the block's whole text, so that applying the
patch resolves the block. Blocks that share a hunk share the patch. Lines of the block that no
hunk replaces are copied from the buffer; hunks that meet no block become patches as they are.
-/

namespace MergeConflict.Patch

/-- Hunks, by position in their list, that share a patch over the lines `first..last`. -/
structure Group where
  members : List Nat
  first : Nat
  last : Nat
deriving DecidableEq, Repr

/-- The buffer lines `first..last`, as far as there are any. -/
def bufferLines (buffer : List String) (first last : Nat) : List String :=
  (buffer.take last).drop (first - 1)

namespace Group

/-- The group of one block and the hunks that meet it. -/
def ofBlock? (hunks : List Hunk) (block : Block) : Option Group :=
  let met := hunks.zipIdx.filter fun (hunk, _) => block.intersects hunk.start hunk.lastLine
  if met.isEmpty then none
  else some {
    members := met.map (·.2)
    first := met.foldl (fun first (hunk, _) => min first hunk.start) block.startLine
    last := met.foldl (fun last (hunk, _) => max last hunk.lastLine) block.endLine }

/-- Two groups that need one patch: they share a hunk, or the later one begins inside the other. -/
def meets (earlier later : Group) : Bool :=
  later.members.any (earlier.members.contains ·) || decide (later.first ≤ earlier.last)

def union (earlier later : Group) : Group where
  members := earlier.members ++ later.members.filter (!earlier.members.contains ·)
  first := min earlier.first later.first
  last := max earlier.last later.last

/-- A further group behind `groups`, the latest of which stands first. -/
def push (groups : List Group) (group : Group) : List Group :=
  match groups with
  | [] => [group]
  | latest :: rest =>
    if latest.meets group then latest.union group :: rest else group :: latest :: rest

/-- The groups of all blocks, the latest first. -/
def ofBlocks (hunks : List Hunk) (blocks : List Block) : List Group :=
  (blocks.filterMap (ofBlock? hunks)).foldl push []

/-- The new lines from line `cursor` on: those of the hunks, and the buffer's in between. -/
def fill (buffer : List String) (last cursor : Nat) : List Hunk → List String
  | [] => if cursor ≤ last then bufferLines buffer cursor last else []
  | hunk :: rest =>
    (if cursor < hunk.start then bufferLines buffer cursor (hunk.start - 1) else []) ++
      (hunk.newLines ++ fill buffer last (max cursor (hunk.start + hunk.offset)) rest)

/-- The patch over a group's lines. -/
def patch (buffer : List String) (hunks : List Hunk) (group : Group) : Patch :=
  let members := group.members.filterMap (hunks[·]?)
  let ordered := members.mergeSort fun a b => decide (a.start ≤ b.start)
  ⟨group.first, group.last + 1 - group.first, fill buffer group.last group.first ordered⟩

end Group

/-- The patches of some hunks over a buffer with these blocks. -/
def reconcile (buffer : List String) (hunks : List Hunk) (blocks : List Block) : List Patch :=
  let groups := Group.ofBlocks hunks blocks
  let single := hunks.zipIdx.filter fun (_, i) => !groups.any (·.members.contains i)
  sort (groups.reverse.map (Group.patch buffer hunks) ++ single.map (ofHunk ·.1))

end MergeConflict.Patch
