import WordMachine.Text.Grapheme.Cluster
import WordMachine.Text.ControlSequence

/-!
The room that text takes on a display, in cells. Most characters take one cell, East Asian
wide ones and pictographs two, marks and controls none. Control sequences take no room.
-/

namespace WordMachine.Text.Cells

open Grapheme

def wide : CodeSet :=
  [0x1100, 0x1160, 0x231a, 0x231c, 0x2329, 0x232b, 0x23e9, 0x23ed, 0x23f0, 0x23f1, 0x23f3,
    0x23f4, 0x25fd, 0x25ff, 0x2614, 0x2616, 0x2648, 0x2654, 0x267f, 0x2680, 0x2693, 0x2694,
    0x26a1, 0x26a2, 0x26aa, 0x26ac, 0x26bd, 0x26bf, 0x26c4, 0x26c6, 0x26ce, 0x26cf, 0x26d4,
    0x26d5, 0x26ea, 0x26eb, 0x26f2, 0x26f4, 0x26f5, 0x26f6, 0x26fa, 0x26fb, 0x26fd, 0x26fe,
    0x2705, 0x2706, 0x270a, 0x270c, 0x2728, 0x2729, 0x274c, 0x274d, 0x274e, 0x274f, 0x2753,
    0x2756, 0x2757, 0x2758, 0x2795, 0x2798, 0x27b0, 0x27b1, 0x27bf, 0x27c0, 0x2b1b, 0x2b1d,
    0x2b50, 0x2b51, 0x2b55, 0x2b56, 0x2e80, 0x2e9a, 0x2e9b, 0x2ef4, 0x2f00, 0x2fd6, 0x2ff0,
    0x2ffc, 0x3000, 0x303f, 0x3041, 0x3097, 0x3099, 0x3100, 0x3105, 0x3130, 0x3131, 0x318f,
    0x3190, 0x31e4, 0x31f0, 0x321f, 0x3220, 0x3248, 0x3250, 0x4dc0, 0x4e00, 0xa48d, 0xa490,
    0xa4c7, 0xa960, 0xa97d, 0xac00, 0xd7a4, 0xf900, 0xfb00, 0xfe10, 0xfe1a, 0xfe30, 0xfe53,
    0xfe54, 0xfe67, 0xfe68, 0xfe6c, 0xff01, 0xff61, 0xffe0, 0xffe7, 0x16fe0, 0x16fe5, 0x16ff0,
    0x16ff2, 0x17000, 0x187f8, 0x18800, 0x18cd6, 0x18d00, 0x18d09, 0x1aff0, 0x1aff4, 0x1aff5,
    0x1affc, 0x1affd, 0x1afff, 0x1b000, 0x1b123, 0x1b132, 0x1b133, 0x1b150, 0x1b153, 0x1b155,
    0x1b156, 0x1b164, 0x1b168, 0x1b170, 0x1b2fc, 0x1f004, 0x1f005, 0x1f0cf, 0x1f0d0, 0x1f18e,
    0x1f18f, 0x1f191, 0x1f19b, 0x1f200, 0x1f203, 0x1f210, 0x1f23c, 0x1f240, 0x1f249, 0x1f250,
    0x1f252, 0x1f260, 0x1f266, 0x1f300, 0x1f321, 0x1f32d, 0x1f336, 0x1f337, 0x1f37d, 0x1f37e,
    0x1f394, 0x1f3a0, 0x1f3cb, 0x1f3cf, 0x1f3d4, 0x1f3e0, 0x1f3f1, 0x1f3f4, 0x1f3f5, 0x1f3f8,
    0x1f43f, 0x1f440, 0x1f441, 0x1f442, 0x1f4fd, 0x1f4ff, 0x1f53e, 0x1f54b, 0x1f54f, 0x1f550,
    0x1f568, 0x1f57a, 0x1f57b, 0x1f595, 0x1f597, 0x1f5a4, 0x1f5a5, 0x1f5fb, 0x1f650, 0x1f680,
    0x1f6c6, 0x1f6cc, 0x1f6cd, 0x1f6d0, 0x1f6d3, 0x1f6d5, 0x1f6d8, 0x1f6dc, 0x1f6e0, 0x1f6eb,
    0x1f6ed, 0x1f6f4, 0x1f6fd, 0x1f7e0, 0x1f7ec, 0x1f7f0, 0x1f7f1, 0x1f90c, 0x1f93b, 0x1f93c,
    0x1f946, 0x1f947, 0x1fa00, 0x1fa70, 0x1fa7d, 0x1fa80, 0x1fa89, 0x1fa90, 0x1fabe, 0x1fabf,
    0x1fac6, 0x1face, 0x1fadc, 0x1fae0, 0x1fae9, 0x1faf0, 0x1faf9, 0x20000, 0x2fffe, 0x30000,
    0x3fffe]

def colourful : CodeSet :=
  [0x231a, 0x231c, 0x23e9, 0x23ed, 0x23f0, 0x23f1, 0x23f3, 0x23f4, 0x25fd, 0x25ff, 0x2614,
    0x2616, 0x2648, 0x2654, 0x267f, 0x2680, 0x2693, 0x2694, 0x26a1, 0x26a2, 0x26aa, 0x26ac,
    0x26bd, 0x26bf, 0x26c4, 0x26c6, 0x26ce, 0x26cf, 0x26d4, 0x26d5, 0x26ea, 0x26eb, 0x26f2,
    0x26f4, 0x26f5, 0x26f6, 0x26fa, 0x26fb, 0x26fd, 0x26fe, 0x2705, 0x2706, 0x270a, 0x270c,
    0x2728, 0x2729, 0x274c, 0x274d, 0x274e, 0x274f, 0x2753, 0x2756, 0x2757, 0x2758, 0x2795,
    0x2798, 0x27b0, 0x27b1, 0x27bf, 0x27c0, 0x2b1b, 0x2b1d, 0x2b50, 0x2b51, 0x2b55, 0x2b56,
    0x1f004, 0x1f005, 0x1f0cf, 0x1f0d0, 0x1f18e, 0x1f18f, 0x1f191, 0x1f19b, 0x1f201, 0x1f202,
    0x1f21a, 0x1f21b, 0x1f22f, 0x1f230, 0x1f232, 0x1f237, 0x1f238, 0x1f23b, 0x1f250, 0x1f252,
    0x1f300, 0x1f321, 0x1f32d, 0x1f336, 0x1f337, 0x1f37d, 0x1f37e, 0x1f394, 0x1f3a0, 0x1f3cb,
    0x1f3cf, 0x1f3d4, 0x1f3e0, 0x1f3f1, 0x1f3f4, 0x1f3f5, 0x1f3f8, 0x1f3fb, 0x1f400, 0x1f43f,
    0x1f440, 0x1f441, 0x1f442, 0x1f4fd, 0x1f4ff, 0x1f53e, 0x1f54b, 0x1f54f, 0x1f550, 0x1f568,
    0x1f57a, 0x1f57b, 0x1f595, 0x1f597, 0x1f5a4, 0x1f5a5, 0x1f5fb, 0x1f650, 0x1f680, 0x1f6c6,
    0x1f6cc, 0x1f6cd, 0x1f6d0, 0x1f6d3, 0x1f6d5, 0x1f6d8, 0x1f6dc, 0x1f6e0, 0x1f6eb, 0x1f6ed,
    0x1f6f4, 0x1f6fd, 0x1f7e0, 0x1f7ec, 0x1f7f0, 0x1f7f1, 0x1f90c, 0x1f93b, 0x1f93c, 0x1f946,
    0x1f947, 0x1fa00, 0x1fa70, 0x1fa7d, 0x1fa80, 0x1fa89, 0x1fa90, 0x1fabe, 0x1fabf, 0x1fac6,
    0x1face, 0x1fadc, 0x1fae0, 0x1fae9, 0x1faf0, 0x1faf9]

/-- The cells of a character on its own. Two dashes are longer than any other character. -/
def ofCode (code : Nat) : Nat :=
  match kind code with
  | .control | .carriageReturn | .lineFeed | .extending | .joiner => 0
  | .regional => 2
  | .pictograph => if colourful.has code then 2 else 1
  | _ =>
    if code = 0x2E3A then 3
    else if code = 0x2E3B then 4
    else if wide.has code then 2
    else 1

def textSelector : Nat := 0xFE0E

def pictureSelector : Nat := 0xFE0F

/-- The cells of a cluster that had `cells` before `code` joined it. A pictograph follows its
selector; a flag and a syllable of letters keep the width of their first. -/
def widen (first : Kind) (cells code : Nat) : Nat :=
  match first with
  | .pictograph => if code = textSelector then 1 else if code = pictureSelector then 2 else cells
  | .regional | .leading => cells
  | _ => cells + ofCode code

def ofCluster : List Nat → Nat
  | [] => 0
  | first :: rest => rest.foldl (widen (kind first)) (ofCode first)

def scan : Phase → (skip : Nat) → Bytes → Nat
  | _, _, [] => 0
  | phase, skip + 1, _ :: rest => scan phase skip rest
  | phase, 0, b :: rest =>
    if phase.shows b then
      let cluster := Grapheme.first (Utf8.characters (b :: rest))
      ofCluster (cluster.map (·.code)) + scan .ground ((cluster.map (·.width)).sum - 1) rest
    else
      (if phase = .ground && Phase.isPlain b then 1 else 0) + scan (phase.next b) 0 rest

def count (line : Bytes) : Nat := scan .ground 0 line

end WordMachine.Text.Cells

/-!
Blocks of text for a console: tabs become spaces, and where there are several lines all of
them are made as wide as the widest.
-/

namespace WordMachine.Text.Block

/-- Tabs are four spaces, and a carriage return before a newline is dropped. -/
def expand : Bytes → Bytes
  | [] => []
  | 9 :: rest => List.replicate 4 Bytes.space ++ expand rest
  | 13 :: 10 :: rest => Bytes.newline :: expand rest
  | b :: rest => b :: expand rest

def pad (width : Nat) (line : Bytes) : Bytes := line ++ List.replicate (width - Cells.count line) Bytes.space

def render (t : Bytes) : Bytes :=
  let lines := Bytes.splitAll Bytes.newline (expand t)
  let width := (lines.map Cells.count).foldl max 0
  if lines.length ≤ 1 then expand t else Bytes.join [Bytes.newline] (lines.map (pad width))

end WordMachine.Text.Block
