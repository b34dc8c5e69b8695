import Sqf.Diagnostic
import Sqf.Text.Bytes
import Sqf.Token.Piece

/-!
# Scanning

The tokens of a source text and the diagnostics on the way are read off its
pieces: each piece stands behind the pieces before it, so its place is the sum
of their widths.
-/

namespace Sqf

namespace Piece

/-- The token that a piece starting at byte `start` is, if it is one. -/
def token? (start : Nat) (p : Piece) : Option Token :=
  let span : Span := ⟨start, start + Text.width p.text⟩
  match p.form with
  | .plain kind => some ⟨kind, .ofList p.text, span⟩
  | .string value | .openString value => some ⟨.string, .ofList value, span⟩
  | _ => none

/-- What is wrong with a piece starting at byte `start`. An open comment is marked at its
two opening characters, an open string as a whole. -/
def diagnostic? (start : Nat) (p : Piece) : Option Diagnostic :=
  let span : Span := ⟨start, start + Text.width p.text⟩
  match p.form with
  | .openComment => some ⟨.unterminatedComment, ⟨start, start + 2⟩⟩
  | .openString _ => some ⟨.unterminatedString, span⟩
  | .unrecognised => some ⟨.unrecognisedToken (.ofList p.text), span⟩
  | _ => none

/-- The tokens of pieces that stand from byte `start` on, without an end of input. -/
def tokens (start : Nat) : List Piece → List Token
  | [] => []
  | p :: ps => (p.token? start).toList ++ tokens (start + Text.width p.text) ps

/-- The diagnostics of pieces that stand from byte `start` on. -/
def diagnostics (start : Nat) : List Piece → List Diagnostic
  | [] => []
  | p :: ps => (p.diagnostic? start).toList ++ diagnostics (start + Text.width p.text) ps

end Piece

/-- The outcome of scanning a source text. -/
structure Scanned where
  /-- The tokens; the last one is the end of input. -/
  tokens : List Token
  diagnostics : List Diagnostic
deriving DecidableEq, Repr

/-- The tokens of a source text, and the characters, strings and comments that are broken. -/
def scan (source : String) : Scanned :=
  let text := source.toList
  let ps := pieces text
  ⟨Piece.tokens 0 ps ++ [.endAt (Text.width text)], Piece.diagnostics 0 ps⟩

namespace Piece

theorem tokens_append (start : Nat) (ps qs : List Piece) :
    tokens start (ps ++ qs) =
      tokens start ps ++ tokens (start + Text.width (ps.map text).flatten) qs := by
  induction ps generalizing start with
  | nil => simp [tokens]
  | cons p ps ih => simp [tokens, ih, Text.width_append, Nat.add_assoc]

theorem diagnostics_append (start : Nat) (ps qs : List Piece) :
    diagnostics start (ps ++ qs) =
      diagnostics start ps ++ diagnostics (start + Text.width (ps.map text).flatten) qs := by
  induction ps generalizing start with
  | nil => simp [diagnostics]
  | cons p ps ih => simp [diagnostics, ih, Text.width_append, Nat.add_assoc]

end Piece

end Sqf
