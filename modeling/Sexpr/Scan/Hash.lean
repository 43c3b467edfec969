import Sexpr.Scan.Delimited
import Sexpr.Token

/-!
Tokens that begin with a hash: block comments, characters, keywords, special objects, booleans
and datum comments.
-/

namespace Sexpr.Scan

/-- The body of a block comment, after a part of it, in reverse, with so many more comments open
inside. -/
def blockCommentFrom (start : Pos) (found : List Char) (inner : Nat) : Input → Scan String
  | [] => .faultUpTo (.unexpectedEnd .comment) start []
  | ('|', _) :: ('#', _) :: rest =>
      match inner with
      | 0 => .done (String.ofList found.reverse) rest
      | n + 1 => blockCommentFrom start ('#' :: '|' :: found) n rest
  | ('#', _) :: ('|', _) :: rest => blockCommentFrom start ('|' :: '#' :: found) (inner + 1) rest
  | (c, _) :: rest => blockCommentFrom start (c :: found) inner rest

def blockComment (start : Pos) (input : Input) : Scan String :=
  blockCommentFrom start [] 0 input

def isHexDigit (c : Char) : Bool := (Text.hexDigit? c).isSome

/-- A character by its own self, by a code after `x`, `u` or `U`, or by its name. -/
def charOfSpelling (start : Pos) (c : Char) (cs : List Char) : Except ReadError Char :=
  if cs = [] then .ok c
  else if ['x', 'u', 'U'].contains c ∧ cs.length ≤ 8 ∧ cs.all isHexDigit = true then
    codeChar start (cs.foldl (fun n d => n * 16 + (Text.hexDigit? d).getD 0) 0)
  else match Text.charNamed? (String.ofList (c :: cs)) with
    | some x => .ok x
    | none => .error ⟨.lexical .invalidHash, start⟩

/-- The first character after `#\` is taken whatever it is. -/
def charLiteral (start : Pos) : Input → Scan Char
  | [] => .faultUpTo .invalidHash start []
  | (c, _) :: rest =>
      let (cs, rest') := run Text.isSymbolChar rest
      (upTo (c, cs) rest').check fun x => charOfSpelling start x.1 x.2

/-- The name after `#:`; its first character is taken whatever it is. -/
def hashColonName (fmt : Format) (start : Pos) : Input → Scan String
  | [] => .faultUpTo (.unexpectedEnd .hashColon) start []
  | (c, _) :: rest =>
      if c = '|' then delimited fmt '|' start rest
      else
        let (cs, rest') := run Text.isSymbolChar rest
        .upTo (String.ofList (c :: cs)) rest'

def specialNamed (start : Pos) (cs : List Char) : Except ReadError Token :=
  let name := String.ofList cs
  match Special.named? name with
  | some x => .ok (.atom (.special x))
  | none => .error ⟨.lexical (.invalidSpecial name), start⟩

def boolSpelled (fmt : Format) (start : Pos) (cs : List Char) : Except ReadError Token :=
  let name := String.ofList cs
  if name = "t" ∨ fmt.longBooleans = true ∧ name = "true" then .ok (.atom (.bool true))
  else if name = "f" ∨ fmt.longBooleans = true ∧ name = "false" then .ok (.atom (.bool false))
  else .error ⟨.lexical .invalidHash, start⟩

/-- The token of a hash that has been taken; none for a block comment that is not kept. -/
def hash (fmt : Format) (modes : Modes) (start : Pos) : Input → Scan (Option Token)
  | [] => .faultUpTo .invalidHash start []
  | (c, pos) :: rest =>
      if c = '\\' then (charLiteral start rest).map fun x => some (.atom (.char x))
      else if c = ';' then .done (some .datumComment) rest
      else if c = '|' then
        (blockComment start rest).map fun s =>
          if modes.retainComments then some (.blockComment s) else none
      else if c = ':' then
        (hashColonName fmt start rest).map fun s =>
          some (.atom (if fmt.hashColonIsKeyword then .leadingKeyword s else .uninterned s))
      else if c = '!' then
        let (cs, rest') := run Text.isAsciiLetter rest
        ((upTo cs rest').check (specialNamed start)).map some
      else
        let (cs, rest') := run Text.isAsciiLetter ((c, pos) :: rest)
        ((upTo cs rest').check (boolSpelled fmt start)).map some

theorem blockCommentFrom_rest_suffix (start : Pos) (found : List Char) (inner : Nat)
    (input : Input) : (blockCommentFrom start found inner input).rest <:+ input := by
  fun_induction blockCommentFrom start found inner input <;>
    grind [List.suffix_cons, List.IsSuffix.trans]

theorem charLiteral_rest_suffix (start : Pos) (input : Input) :
    (charLiteral start input).rest <:+ input := by
  cases input with
  | nil => exact List.suffix_refl _
  | cons x rest => exact (run_rest_suffix _ rest).trans (List.suffix_cons _ _)

theorem hashColonName_rest_suffix (fmt : Format) (start : Pos) (input : Input) :
    (hashColonName fmt start input).rest <:+ input := by
  fun_cases hashColonName fmt start input <;>
    grind [List.suffix_cons, List.IsSuffix.trans, delimited_rest_suffix, run_rest_suffix]

theorem hash_rest_suffix (fmt : Format) (modes : Modes) (start : Pos) (input : Input) :
    (hash fmt modes start input).rest <:+ input := by
  fun_cases hash fmt modes start input <;>
    grind [List.suffix_cons, List.IsSuffix.trans, blockComment, blockCommentFrom_rest_suffix,
      charLiteral_rest_suffix, hashColonName_rest_suffix, run_rest_suffix]

end Sexpr.Scan
