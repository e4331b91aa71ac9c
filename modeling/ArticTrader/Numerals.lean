import Mathlib.Data.Nat.Cast.Defs

/-!
The numerals that thresholds, periods and scales are written with, over any field.
-/

namespace ArticTrader.Numerals

scoped instance two : Nat.AtLeastTwo 2 := ⟨by decide⟩

scoped instance three : Nat.AtLeastTwo 3 := ⟨by decide⟩

scoped instance four : Nat.AtLeastTwo 4 := ⟨by decide⟩

scoped instance five : Nat.AtLeastTwo 5 := ⟨by decide⟩

scoped instance ten : Nat.AtLeastTwo 10 := ⟨by decide⟩

scoped instance fifteen : Nat.AtLeastTwo 15 := ⟨by decide⟩

scoped instance twenty : Nat.AtLeastTwo 20 := ⟨by decide⟩

scoped instance twenty_five : Nat.AtLeastTwo 25 := ⟨by decide⟩

scoped instance thirty : Nat.AtLeastTwo 30 := ⟨by decide⟩

scoped instance fifty : Nat.AtLeastTwo 50 := ⟨by decide⟩

scoped instance seventy : Nat.AtLeastTwo 70 := ⟨by decide⟩

scoped instance eighty : Nat.AtLeastTwo 80 := ⟨by decide⟩

scoped instance hundred : Nat.AtLeastTwo 100 := ⟨by decide⟩

scoped instance thousand : Nat.AtLeastTwo 1000 := ⟨by decide⟩

scoped instance ten_thousand : Nat.AtLeastTwo 10000 := ⟨by decide⟩

end ArticTrader.Numerals
