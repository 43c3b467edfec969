import Sexpr.Reader.Basic
import Sexpr.Tokens

/-!
Reading the data of a source.
-/

namespace Sexpr

def Reader.ofSource (settings : Settings) (s : Source) : Reader :=
  let ts := Tokens.ofSource settings s
  .ofTokens settings.modes ts.pairs ts.stop

def Source.readAll (settings : Settings) (s : Source) : Except ReadError (List Datum) :=
  (Reader.ofSource settings s).readAll.1

end Sexpr
