import ChordSymbol.Lexicon.Basic

/-! The built-in lexicon. -/
namespace ChordSymbol.Lexicon

open Edit

/-- A quality implies its fifth by `add`, so that an alteration may still move it. -/
def standardQualities : List Rule := [
  { Rule.basic .quality ["maj", "M", "major"] [replace .third 4, add .fifth 7] with
    isDefault := true, caseSensitive := true },
  { Rule.basic .quality ["m", "min", "minor", "-"] [replace .third 3, add .fifth 7] with
    caseSensitive := true },
  Rule.basic .quality ["dim", "°", "o"] [replace .third 3, replace .fifth 6],
  Rule.basic .quality ["dim7", "°7", "o7"] [replace .third 3, replace .fifth 6, add .seventh 9],
  Rule.basic .quality ["aug", "+"] [add .third 4, replace .fifth 8],
  Rule.basic .quality ["ø", "ø7"] [replace .third 3, replace .fifth 6, add .seventh 10],
  { Rule.basic .quality ["5"] [add .fifth 7] with excludes := [.extension] }]

def standardSuspensions : List Rule := [
  Rule.basic .suspension ["sus4", "sus"] [replace .third 5, add .fifth 7],
  Rule.basic .suspension ["sus2"] [replace .third 2, add .fifth 7]]

def standardExtensions : List Rule := [
  Rule.basic .extension ["7"] [add .seventh 10],
  { Rule.basic .extension ["maj7", "M7", "Δ", "Δ7"] [add .seventh 11] with caseSensitive := true },
  Rule.basic .extension ["9"] [add .seventh 10, add .ninth 14],
  Rule.basic .extension ["11"] [add .seventh 10, add .ninth 14, add .eleventh 17],
  Rule.basic .extension ["13"] [add .seventh 10, add .ninth 14, add .thirteenth 21],
  { Rule.basic .extension ["maj9", "M9", "Δ9"] [add .seventh 11, add .ninth 14] with
    caseSensitive := true },
  { Rule.basic .extension ["maj11", "M11"] [add .seventh 11, add .ninth 14, add .eleventh 17] with
    caseSensitive := true },
  { Rule.basic .extension ["maj13", "M13"] [add .seventh 11, add .ninth 14, add .thirteenth 21] with
    caseSensitive := true }]

def standardAdditions : List Rule := [
  Rule.basic .addition ["add9", "add2"] [add .ninth 14],
  Rule.basic .addition ["add11", "add4"] [add .eleventh 17],
  Rule.basic .addition ["add13", "add6", "6"] [add .thirteenth 21]]

/-- An alteration above the seventh needs an extension to alter. -/
def standardAlterations : List Rule := [
  Rule.basic .alteration ["b5", "♭5", "-5"] [modify .fifth (-1)],
  Rule.basic .alteration ["#5", "♯5", "+5"] [modify .fifth 1],
  { Rule.basic .alteration ["b9", "♭9", "-9"] [modify .ninth (-1)] with
    requires := [.category .extension] },
  { Rule.basic .alteration ["#9", "♯9", "+9"] [modify .ninth 1] with
    requires := [.category .extension] },
  { Rule.basic .alteration ["#11", "♯11", "+11"] [modify .eleventh 1] with
    requires := [.category .extension] },
  { Rule.basic .alteration ["b13", "♭13", "-13"] [modify .thirteenth (-1)] with
    requires := [.category .extension] },
  { Rule.basic .alteration ["#13", "♯13"] [modify .thirteenth 1] with
    requires := [.category .extension] },
  Rule.basic .alteration ["no3", "omit3"] [remove .third],
  Rule.basic .alteration ["no5", "omit5"] [remove .fifth]]

def standard : Lexicon :=
  ⟨standardQualities ++ standardSuspensions ++ standardExtensions ++ standardAdditions ++
    standardAlterations⟩

end ChordSymbol.Lexicon
