import BicepMigration.Proofs.Template.RewrittenStatements

/-!
# Reading in another text

A template is read from tokens, and its text is looked at for the text of fragments only. So the same tokens are read in
the same way, places included, in every text that has the same text for them. Main statement: the statements read in
two such texts are equal.
-/

namespace BicepMigration.Template

open Text

/-- The tokens have the same text in both texts, wherever some of them are taken together. -/
def SharesText (source source' : String) (toks : List Token) : Prop :=
  ∀ first others, first :: others <:+: toks →
    Fragment.ofTokens source' first others = Fragment.ofTokens source first others

variable {source source' : String} {toks : List Token}

/-- Two sources that share the text of tokens share that of some of them. -/
theorem SharesText.mono {part : List Token} (h : SharesText source source' toks) (hp : part <:+: toks) :
    SharesText source source' part :=
  fun first others hi => h first others (hi.trans hp)

/-- The same tokens are seen alike, whole and where they are. -/
theorem SharesText.seenAlike (h : SharesText source source' toks) :
    SeenAlike .whole .whole source source' id toks where
  kind _ := rfl
  text _ _ := rfl
  fragment first others hi := by
    rw [List.map_id]
    exact h first others hi
  number first others hi := by
    rw [List.map_id]
    exact congrArg Fragment.raw (h first others hi)
  span first others _ _ := by rw [List.map_id]; rfl
  line _ _ := rfl
  meets _ _ _ _ := Iff.rfl

/-- Decorators are read alike. -/
theorem readDecorators_congr (h : SharesText source source' toks) :
    readDecorators source' toks = readDecorators source toks := by
  have hseen := seen_readDecorators h.seenAlike
  rw [List.map_id, List.map_id] at hseen
  refine Prod.ext ?_ hseen.2
  simpa [Aspect.whole] using hseen.1

/-- A statement is read alike. -/
theorem readStatement_congr {first : Token} {others : List Token} (h : SharesText source source' (first :: others)) :
    readStatement source' first others = readStatement source first others := by
  have hseen := seen_readStatement h.seenAlike fun taken _ => by rw [List.map_id]; rfl
  have hafter := snd_readStatement_map h.seenAlike
  simp only [List.map_id, id_eq, Statement.seen_whole] at hseen hafter
  exact Prod.ext hseen hafter

/-- The same statements are read in both texts. -/
theorem readStatements_congr (h : SharesText source source' toks) :
    readStatements source' toks = readStatements source toks := by
  have hseen := seen_readStatements h.seenAlike
  have hwhole : Statement.seen .whole = id := funext Statement.seen_whole
  rwa [hwhole, List.map_id, List.map_id, List.map_id] at hseen

end BicepMigration.Template
