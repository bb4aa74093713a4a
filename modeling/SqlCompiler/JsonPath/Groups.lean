/-!
# Bracket groups

A path segment such as `items[0][12]` ends in groups of brackets. `splitGroups` reads the segment
from its end: it takes groups `[t]`, with `t` not empty and free of brackets, as long as there are
any.
-/

namespace SqlCompiler.JsonPath

/-- What the end of a segment is, read so far from right to left. -/
inductive SegmentEnd where
  /-- Nothing but groups. -/
  | groups (tokens : List (List Char))
  /-- The rear part of a group that is not opened yet, then groups. -/
  | inside (token : List Char) (tokens : List (List Char))
  /-- Text that belongs to no group, then groups. -/
  | key (text : List Char) (tokens : List (List Char))

namespace SegmentEnd

/-- One more character in front. -/
def push (c : Char) : SegmentEnd → SegmentEnd
  | groups tokens => if c = ']' then inside [] tokens else key [c] tokens
  | inside token tokens =>
    if c = '[' ∧ token ≠ [] then groups (token :: tokens)
    else if c = '[' ∨ c = ']' then key (c :: (token ++ [']'])) tokens
    else inside (c :: token) tokens
  | key text tokens => key (c :: text) tokens

/-- The key, and the tokens of the groups after it. -/
def split : SegmentEnd → List Char × List (List Char)
  | groups tokens => ([], tokens)
  | inside token tokens => (token ++ [']'], tokens)
  | key text tokens => (text, tokens)

end SegmentEnd

/-- The key of a segment, and the tokens of the groups at its end. -/
def splitGroups (segment : List Char) : List Char × List (List Char) :=
  (segment.foldr SegmentEnd.push (.groups [])).split

/-- Tokens in brackets. -/
def bracketed (tokens : List (List Char)) : List Char :=
  tokens.flatMap fun token => '[' :: (token ++ [']'])

end SqlCompiler.JsonPath
