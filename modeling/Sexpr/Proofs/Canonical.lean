import Sexpr.Proofs.Places
import Sexpr.Proofs.Reader.Sound

/-!
The canonical form of what is read.

- `Scan.token_canonical`: atoms are scanned in canonical form.
- `Reader.data_canonical`: all data that a reader delivers are in canonical form, down to their
  atoms.
-/

namespace Sexpr

/-- A number that is whole is an integer, any other one is a fraction in lowest terms. -/
def Number.Canonical : Number → Prop
  | .integer _ => True
  | .rational q => 2 ≤ q.denominator ∧ Nat.gcd q.numerator.natAbs q.denominator = 1

/-- What can be known of an atom that text in a format gives. A name with a character that no
symbol has stands after `#:` as a keyword, or it begins with that character and ends with its
colon. -/
def Atom.Canonical (fmt : Format) : Atom → Prop
  | .bool _ | .char _ | .string _ | .symbol _ => True
  | .uninterned _ => fmt.hashColonIsKeyword = false
  | .leadingKeyword s =>
      (∃ c ∈ s.toList, Text.isSymbolChar c = false) → fmt.hashColonIsKeyword = true
  | .trailingKeyword s =>
      ∃ c cs, s.toList = c :: cs ∧ c ∉ [':', '#', ';'] ∧ ∀ d ∈ cs, Text.isSymbolChar d = true
  | .special x => x.name ∈ ["eof", "void", "optional", "rest", "key"]
  | .number n => n.Canonical
  | .plain _ => False

/-- What can be known of a datum itself, without what stands inside it. -/
def Datum.Canonical (settings : Settings) : Datum → Prop
  | .atom a _ => a.Canonical settings.format
  | .list _ _ none _ => True
  | .list k items (some _) _ =>
      k = .round ∧ 2 ≤ items.length ∧ (∀ last ∈ items.getLast?, last.isRoundList = false) ∧
      settings.format.hasDottedPairs = true ∧ settings.modes.allowImproperLists = true

/-! ## Atoms -/

namespace Scan

variable {settings : Settings} {fmt : Format} {c : Char} {p : Pos} {input : Input} {s : String}

/-- A run that is a keyword for its last character has its name before it. -/
theorem trailing_of_bareAtom {cs : List Char} (h : bareAtom (c :: cs) = .trailingKeyword s) :
    c ≠ ':' ∧ s.toList = c :: cs.dropLast := by
  unfold bareAtom at h
  split at h
  · cases h
  · split at h
    · cases h
    · rename_i leading
      have first : c ≠ ':' := by
        rintro rfl
        exact leading rfl
      split at h
      · rename_i trailing
        have more : cs ≠ [] := by
          rintro rfl
          exact first (by simpa using trailing)
        cases h
        rw [String.toList_ofList]
        exact ⟨first, List.dropLast_cons_of_ne_nil more⟩
      · cases h

/-- No other token is a keyword for its last character. -/
theorem trailing_of_token
    (h : (token settings c p input).result = .ok (some (.atom (.trailingKeyword s)))) :
    ∃ cs, s.toList = c :: cs ∧ c ∉ [':', '#', ';'] ∧ ∀ d ∈ cs, Text.isSymbolChar d = true := by
  generalize found : Token.atom (.trailingKeyword s) = t at h
  cases gives_of_token h with
  | bare plain comment hash =>
    unfold bareToken at found
    split at found
    · cases found
    · obtain ⟨colon, name⟩ := trailing_of_bareAtom (Token.atom.inj found).symm
      refine ⟨_, name, by simp [colon, hash, comment], ?_⟩
      intro d hd
      exact of_mem_run rfl d ((List.dropLast_sublist _).subset hd)
  | _ => cases found

theorem token_canonical {a : Atom}
    (h : (token settings c p input).result = .ok (some (.atom a))) :
    a.Canonical settings.format := by
  have legible : a.Legible settings.format := token_legible h
  cases a with
  | bool | char | string | symbol => trivial
  | special x => cases x <;> simp [Atom.Canonical, Special.name]
  | trailingKeyword s =>
    obtain ⟨cs, name⟩ := trailing_of_token h
    exact ⟨c, cs, name⟩
  | uninterned s =>
    rcases legible with printable | ⟨⟨⟩⟩
    exact printable
  | leadingKeyword s =>
    rcases legible with symbol | ⟨⟨⟩⟩
    rintro ⟨d, hd, other⟩
    rcases symbol with all | keyword
    · rw [all d hd] at other
      cases other
    · exact keyword
  | number n =>
    rcases legible with lasting | ⟨⟨⟩⟩
    cases n with
    | integer n => trivial
    | rational q =>
      have positive := q.denominator_pos
      have whole : q.denominator ≠ 1 := lasting
      exact ⟨by omega, q.reduced⟩
  | plain label => rcases legible with ⟨⟨⟩⟩ | ⟨⟨⟩⟩

end Scan

theorem Tokens.atom_canonical {settings : Settings} {s : Source} {a : Atom} {p : Pos}
    (h : (.atom a, p) ∈ (ofSource settings s).pairs) : a.Canonical settings.format := by
  have makes : Makes settings s.failure? s.input (ofSource settings s) := makes_iff.2 rfl
  obtain ⟨l, member, same⟩ := List.mem_map.1 h
  obtain ⟨token, rfl⟩ := Prod.mk.inj same
  obtain ⟨before, after, split⟩ := List.append_of_mem member
  obtain ⟨c, later, -, scanned, -⟩ := makes.lexeme split
  exact Scan.token_canonical (by rw [scanned, token])

/-! ## Lists -/

theorem Datum.Readable.list_canonical {settings : Settings} {n : Nat} {k : Bracket}
    {items : List Datum} {dot pos : Option Pos}
    (h : (Datum.list k items dot pos).Readable settings n) :
    (Datum.list k items dot pos).Canonical settings := by
  cases h with
  | proper => trivial
  | @improper fuel init last dot pos allowed nonempty inner tail flat =>
    have some : 0 < init.length := List.length_pos_iff.2 nonempty
    refine ⟨rfl, ?_, ?_, allowed⟩
    · rw [List.length_append, List.length_singleton]
      omega
    · simpa using flat

namespace Reader

/-- Whatever is asked of a reader, the data that it delivers are canonical, with everything inside
them, and no more depth is needed to read them again than there is. -/
theorem data_canonical (settings : Settings) (s : Source) (requests : List Request) :
    ∀ d ∈ ((ofSource settings s).performAll requests).1.flatMap Answer.delivered,
      ∀ v ∈ d.nodes, v.Canonical settings ∧ v.need ≤ maxDepth := by
  intro d hd v hv
  obtain ⟨us, inside, makes⟩ := (picked_performAll (follows_self rfl) requests).stands d hd
  have legible : ∀ x ∈ us, x.1.Legible settings.format := by
    intro x hx
    exact Tokens.ofSource_legible settings s x (inside.subset hx)
  have alone : readFrom settings.modes .dotOutsideList none [] us = ⟨.ok (some d), [], false⟩ :=
    readFrom_eq_datum.2 ⟨[], us, by simp, .none, makes⟩
  have readable : d.Readable settings maxDepth := readFrom_sound .empty legible (by rw [alone])
  have node := readable.of_mem_nodes v hv
  refine ⟨?_, node.need_le⟩
  cases v with
  | list => exact Datum.Readable.list_canonical node
  | atom a pos =>
    have plain : Plain us := (Tokens.plain_ofSource settings s).of_inside inside
    rcases makes.grounded plain _ hv with ⟨n, -, vs, part, atom⟩ | ⟨m, q, -, name⟩
    · cases atom with
      | atom => exact Tokens.atom_canonical ((part.trans inside).subset List.mem_cons_self)
    · cases name
      trivial

/-- The text `a:` is a keyword with its colon last. -/
theorem data_canonical_keyword :
    let keyword := Datum.atom (.trailingKeyword "a") (some .start)
    keyword ∈ ((ofSource .standard (.ofString "a:")).performAll [.read]).1.flatMap
        Answer.delivered ∧
      keyword.Canonical .standard ∧ keyword.need ≤ maxDepth := by
  intro keyword
  have scanned : Scan.token .standard 'a' .start (Input.ofChars [':'] ⟨0, 1⟩) =
      .upTo (some (.atom (.trailingKeyword "a"))) [] := by rfl
  have tokens : Tokens.ofSource .standard (.ofString "a:") =
      ⟨[⟨.atom (.trailingKeyword "a"), .start, [], true⟩], none, []⟩ :=
    Tokens.makes_iff.1 (.token scanned (fun _ => rfl) rfl .ended)
  have member : keyword ∈ ((ofSource .standard (.ofString "a:")).performAll [.read]).1.flatMap
      Answer.delivered := by
    rw [ofSource, tokens]
    exact List.mem_cons_self
  exact ⟨member, data_canonical .standard _ [.read] keyword member keyword List.mem_cons_self⟩

end Reader

end Sexpr
