/-!
Names not taken yet. A wanted name gives way to the first free one of its numbered alternates;
among one more alternates than there are taken names one is free.
-/
namespace SdkSmith.Naming

/-- The first free alternate from number `n` on, among `fuel` of them and the one after. -/
def firstFree (taken : List String) (alternate : Nat → String) : Nat → Nat → String
  | 0, n => alternate n
  | fuel + 1, n =>
    if taken.contains (alternate n) then firstFree taken alternate fuel (n + 1) else alternate n

/-- The wanted name, or its first free alternate from number `start` on. -/
def fresh (taken : List String) (wanted : String) (alternate : Nat → String) (start : Nat) :
    String :=
  if taken.contains wanted then firstFree taken alternate taken.length start else wanted

/-- The alternates of a member's or method's name. -/
def duplicateOf (wanted : String) (n : Nat) : String :=
  wanted ++ "Duplicate" ++ toString n

/-- The alternates of a class or schema name. -/
def numbered (wanted : String) (n : Nat) : String :=
  wanted ++ toString n

/-- A member's name: the wanted one or its first free duplicate. -/
def freshVariable (taken : List String) (wanted : String) : String :=
  fresh taken wanted (duplicateOf wanted) 1

/-- A class's or schema's name: the wanted one or its first free number from 2 on. -/
def freshNumbered (taken : List String) (wanted : String) : String :=
  fresh taken wanted (numbered wanted) 2

end SdkSmith.Naming
