import Stencil.Css.Split

set_option autoImplicit false

/-! # Reading style sheets

A style sheet is a sequence of blanks, comments, at-rules and rules. An at-rule ends at `;` or
with its block, a rule with its block. A rule whose block holds an opening brace is kept as it
is written.
-/

namespace Stencil.Css

open Text

/-- The pieces before the first character among `stops`, that character, and the pieces after
it. The pieces begin at an index; a closing brace must not come first. -/
def scanTo (stops : Text) (index : Nat) :
    List Piece → Except Fault (Option (List Piece × CodePoint × List Piece))
  | [] => .ok none
  | .openString _ :: _ => .error (.unclosedString index)
  | .openComment _ :: _ => .error (.unclosedComment index)
  | .char c :: rest =>
      if stops.elem c then .ok (some ([], c, rest))
      else if c = '\x7d' then .error (.strayBrace index)
      else
        (scanTo stops (index + 1) rest).map (·.map fun (front, stop, rest) =>
          (.char c :: front, stop, rest))
  | piece :: rest =>
      (scanTo stops (index + piece.size) rest).map (·.map fun (front, stop, rest) =>
        (piece :: front, stop, rest))

/-- The pieces of a block up to the brace that closes it, and the pieces after that brace. The
block was opened at `first`, the pieces begin at an index, and `depth` counts the blocks that
are open inside. -/
def blockFrom (first depth index : Nat) : List Piece → Except Fault (List Piece × List Piece)
  | [] => .error (.unclosedBlock first)
  | .openString _ :: _ => .error (.unclosedString index)
  | .openComment _ :: _ => .error (.unclosedComment index)
  | .char c :: rest =>
      if c = '\x7d' then
        match depth with
        | 0 => .ok ([], rest)
        | depth + 1 =>
            (blockFrom first depth (index + 1) rest).map fun (inside, rest) =>
              (.char c :: inside, rest)
      else
        let depth := if c = '\x7b' then depth + 1 else depth
        (blockFrom first depth (index + 1) rest).map fun (inside, rest) => (.char c :: inside, rest)
  | piece :: rest =>
      (blockFrom first depth (index + piece.size) rest).map fun (inside, rest) =>
        (piece :: inside, rest)

/-- The at-rule at the front of some pieces that begin at an index, and the pieces after it. -/
def readAtRule (index : Nat) (ps : List Piece) : Except Fault (Item × List Piece) := do
  match ← scanTo ['\x7b', ';'] index ps with
  | none => .error (.unclosedAtRule index)
  | some (front, ';', rest) => .ok (.raw (sourceOf front ++ [char ';']), rest)
  | some (front, stop, rest) =>
      let first := index + (sourceOf front).length
      let (inside, rest) ← blockFrom first 0 (first + 1) rest
      .ok (.raw (sourceOf front ++ [stop] ++ sourceOf inside ++ [char '\x7d']), rest)

/-- The rule at the front of some pieces that begin at an index, and the pieces after it. -/
def readRule (index : Nat) (ps : List Piece) : Except Fault (Item × List Piece) := do
  match ← scanTo ['\x7b'] index ps with
  | none => .error (.missingBlock (trim (sourceOf ps)))
  | some (front, _, rest) =>
      let prelude := sourceOf front
      let first := index + prelude.length
      let (inside, rest) ← blockFrom first 0 (first + 1) rest
      let body := sourceOf inside
      let selectors ← topLevelParts ',' prelude
      if selectors.isEmpty then .error (.missingSelector index)
      else if body.elem (.char '\x7b') then
        .ok (.raw (prelude ++ [char '\x7b'] ++ body ++ [char '\x7d']), rest)
      else do .ok (.rule selectors (← topLevelParts ';' body), rest)

/-- What stands at the front of some pieces that begin at an index: an item, or nothing for a
blank. -/
def readItem (index : Nat) (piece : Piece) (rest : List Piece) :
    Except Fault (Option Item × List Piece) :=
  match piece with
  | .comment s => .ok (some (.raw s), rest)
  | .openComment _ => .error (.unclosedComment index)
  | .char c =>
      if isBlank c then .ok (none, rest)
      else if c = '\x7d' then .error (.strayBrace index)
      else if c = '@' then
        (readAtRule index (piece :: rest)).map fun (item, rest) => (some item, rest)
      else (readRule index (piece :: rest)).map fun (item, rest) => (some item, rest)
  | _ => (readRule index (piece :: rest)).map fun (item, rest) => (some item, rest)

/-- The items of some pieces that begin at an index. -/
def itemsFrom (index : Nat) : List Piece → Except Fault Stylesheet
  | [] => .ok []
  | piece :: rest =>
      match readItem index piece rest with
      | .error fault => .error fault
      | .ok (item?, after) =>
          if after.length ≤ rest.length then
            let size := (sourceOf (piece :: rest)).length - (sourceOf after).length
            (itemsFrom (index + size) after).map (item?.toList ++ ·)
          else .ok item?.toList
termination_by ps => ps.length

/-- The style sheet a text stands for. -/
def Stylesheet.parse (s : Text) : Except Fault Stylesheet := itemsFrom 0 (pieces s)

end Stencil.Css
