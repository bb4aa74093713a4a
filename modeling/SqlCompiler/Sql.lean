import SqlCompiler.Binding
import SqlCompiler.Text.Blank
/-!
# SQL in pieces

A compiled statement remembers where its values go. It is a list of pieces: plain text, a slot for
one bound value, or a fragment that came with text and bindings of its own. `Sql.text` is what an
engine sees, `Sql.bindings` the values in the order of the text.
-/

namespace SqlCompiler

inductive Piece where
  | plain (s : String)
  | slot (value : Binding)
  | fragment (sql : String) (bindings : List Binding)

structure Sql where
  pieces : List Piece

namespace Piece

/-- A slot is written as a question mark. -/
def text : Piece → String
  | plain s => s
  | slot _ => "?"
  | fragment sql _ => sql

def bindings : Piece → List Binding
  | plain _ => []
  | slot value => [value]
  | fragment _ bindings => bindings

/-- A piece with its own words changed; a slot has none. -/
def mapText (f : List Char → List Char) : Piece → Piece
  | plain s => plain (Text.onString f s)
  | slot value => slot value
  | fragment sql bindings => fragment (Text.onString f sql) bindings

/-- A piece with words put in after the first `n` characters. -/
def insertAt (n : Nat) (words : String) : Piece → List Piece
  | slot value => if n = 0 then [plain words, slot value] else [slot value, plain words]
  | piece => [piece.mapText fun text => text.take n ++ words.toList ++ text.drop n]

end Piece

namespace Sql

def ofText (s : String) : Sql := ⟨[.plain s]⟩

instance : Coe String Sql := ⟨ofText⟩

instance : Append Sql := ⟨fun a b => ⟨a.pieces ++ b.pieces⟩⟩

instance : Inhabited Sql := ⟨⟨[]⟩⟩

def empty : Sql := ⟨[]⟩

def text (sql : Sql) : String :=
  sql.pieces.foldr (fun piece rest => piece.text ++ rest) ""

def bindings (sql : Sql) : List Binding :=
  sql.pieces.flatMap Piece.bindings

def isEmpty (sql : Sql) : Bool :=
  sql.pieces.all fun piece => piece.text.isEmpty

def ofParam : Param → Sql
  | .value b => ⟨[.slot b]⟩
  | .raw sql => ofText sql

/-- Raw words with the values that belong to them. -/
def ofFragment (sql : String) (bindings : List Binding) : Sql :=
  ⟨[.fragment sql bindings]⟩

/-- The parts one after the other with `sep` between them. -/
def join (sep : String) : List Sql → Sql
  | [] => empty
  | [part] => part
  | part :: parts => part ++ sep ++ join sep parts

/-- The parts that are not empty, with blanks between them. -/
def spaced (parts : List Sql) : Sql :=
  join " " (parts.filter fun part => !part.isEmpty)

def parenthesized (sql : Sql) : Sql :=
  "(" ++ sql ++ ")"

/-- The statement without the blanks at the end of its text. -/
def trimEnd (sql : Sql) : Sql :=
  ⟨sql.pieces.foldr (fun piece rest =>
    if rest.all fun p => p.text.isEmpty then piece.mapText Text.trimEnd :: rest
    else piece :: rest) []⟩

def insertPieces (n : Nat) (words : String) : List Piece → List Piece
  | [] => [.plain words]
  | piece :: rest =>
    if n ≤ piece.text.length then piece.insertAt n words ++ rest
    else piece :: insertPieces (n - piece.text.length) words rest

/-- The statement with words put in after the first `n` characters of its text. -/
def insertAt (n : Nat) (words : String) (sql : Sql) : Sql :=
  ⟨insertPieces n words sql.pieces⟩

@[simp] theorem pieces_append (a b : Sql) : (a ++ b).pieces = a.pieces ++ b.pieces := rfl

@[simp] theorem bindings_append (a b : Sql) : (a ++ b).bindings = a.bindings ++ b.bindings := by
  simp [bindings]

@[simp] theorem bindings_ofText (s : String) : (ofText s).bindings = [] := rfl

@[simp] theorem text_append (a b : Sql) : (a ++ b).text = a.text ++ b.text := by
  obtain ⟨ps⟩ := a
  induction ps with
  | nil => simp [text]
  | cons p ps ih => simpa [text, String.append_assoc] using ih

@[simp] theorem text_ofText (s : String) : (ofText s).text = s := by
  simp [text, ofText, Piece.text]

end Sql

end SqlCompiler
