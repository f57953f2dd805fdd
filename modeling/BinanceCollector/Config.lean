import BinanceCollector.Lib.Text

/-!
# Symbols

`normalize_symbols` of `config.py`. `str.strip` and `str.upper` are parameters: whatever they give is checked.
-/

namespace BinanceCollector

open Text

/-- The class `[A-Z0-9]`. -/
def isSymbolCode (c : CodePoint) : Bool := (code 'A' ≤ c && c ≤ code 'Z') || (code '0' ≤ c && c ≤ code '9')

/-- `_SYMBOL_PATTERN.fullmatch(symbol) is not None`. -/
def isSymbol (symbol : Str) : Bool := !symbol.isEmpty && symbol.all isSymbolCode

/-- `normalize_symbols`; the text of its `ValueError`. -/
def normalizeSymbols (strip upper : Str → Str) (values : List Str) : Except Str (List Str) :=
  let symbols := values.map fun value => upper (strip value)
  if symbols.isEmpty || symbols.any (·.isEmpty) then .error (str "수집할 심볼을 한 개 이상 지정해야 합니다.")
  else if symbols.any (!isSymbol ·) then .error (str "심볼에는 영문자와 숫자만 사용할 수 있습니다.")
  else if ¬symbols.Nodup then .error (str "같은 심볼을 중복해서 지정할 수 없습니다.")
  else .ok symbols

/-- What `normalize_symbols` returns: distinct symbols, at least one. -/
structure Symbols (symbols : List Str) : Prop where
  nonempty : symbols ≠ []
  isSymbol : ∀ symbol ∈ symbols, isSymbol symbol = true
  nodup : symbols.Nodup

theorem normalizeSymbols_symbols {strip upper : Str → Str} {values symbols : List Str}
    (h : normalizeSymbols strip upper values = .ok symbols) : Symbols symbols := by
  simp only [normalizeSymbols] at h
  split at h
  · cases h
  split at h
  · cases h
  split at h
  · cases h
  rename_i hne hsym hnodup
  obtain rfl := Except.ok.inj h
  simp only [Bool.or_eq_true, List.isEmpty_iff, not_or] at hne
  refine ⟨hne.1, fun symbol hs => ?_, not_not.1 hnodup⟩
  by_contra hbad
  exact hsym (List.any_eq_true.2 ⟨symbol, hs, by simpa using hbad⟩)

end BinanceCollector
