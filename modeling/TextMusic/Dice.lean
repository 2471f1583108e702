/-
Random draws.  A performance draws note letters and instruments; where the
draws come from is left open, so that any generator can stand behind them.
-/

namespace TextMusic

/-- A generator of uniform draws.  Each draw returns the generator that goes on
behind it. -/
class Dice (σ : Type) where
  /-- One of the eight note letters. -/
  letter : σ → Fin 8 × σ
  /-- An instrument; the last one is never drawn. -/
  program : σ → Fin 127 × σ

end TextMusic
