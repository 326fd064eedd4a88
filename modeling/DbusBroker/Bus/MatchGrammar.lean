import DbusBroker.Bus.MatchValue

/-!
# The grammar of match rules

A rule string is a list of pairs of a key and a value. This module says what such a list is,
which keys there are, which values they accept, which keys exclude each other, and what keys
hold exactly the pairs of a list; nothing of it looks at the parser.

The number of an argument is written in decimal digits, two of them at most. How many there
must be at least is a parameter of the grammar.
-/

namespace DbusBroker

/-- The keys of a match rule. -/
inductive RuleKey where
  | type
  | sender
  | destination
  | interface
  | member
  | path
  | pathNamespace
  | arg0namespace
  | arg (n : ℕ)
  | argpath (n : ℕ)
  deriving DecidableEq, Repr

/-- The digits of the number of an argument. -/
structure ArgDigits (fewest n : ℕ) (digits : Bytes) : Prop where
  digit : ∀ c ∈ digits, isDigit c = true
  fewest_le : fewest ≤ digits.length
  length_le : digits.length ≤ 2
  value : decimal digits = n
  le : n ≤ 63

/-- The ways to write a key. -/
def RuleKey.Spelled (fewest : ℕ) : RuleKey → Bytes → Prop
  | .type, key => key = lit "type"
  | .sender, key => key = lit "sender"
  | .destination, key => key = lit "destination"
  | .interface, key => key = lit "interface"
  | .member, key => key = lit "member"
  | .path, key => key = lit "path"
  | .pathNamespace, key => key = lit "path_namespace"
  | .arg0namespace, key => key = lit "arg0namespace"
  | .arg n, key => ∃ digits, ArgDigits fewest n digits ∧ key = lit "arg" ++ digits
  | .argpath n, key => ∃ digits, ArgDigits fewest n digits ∧ key = lit "arg" ++ (digits ++ lit "path")

/-- The values a key accepts. -/
def RuleKey.accepts : RuleKey → Bytes → Bool
  | .type, value => (matchType value).isSome
  | .sender, value => dbusValidateName value
  | .destination, value => dbusValidateName value
  | .interface, value => dbusValidateInterface value
  | .member, value => dbusValidateMember value
  | .path, value => cDvarIsPath value
  | .pathNamespace, value => cDvarIsPath value
  | .arg0namespace, value => dbusValidateNamespace value
  | .arg _, _ => true
  | .argpath _, _ => true

/-- The keys that may not occur together: a key twice, both keys for the path, both keys for an
argument, and the namespace of the first argument with either of its other keys. -/
inductive RuleKey.Excludes : RuleKey → RuleKey → Prop
  | same (k : RuleKey) : Excludes k k
  | path : Excludes .path .pathNamespace
  | arg (n : ℕ) : Excludes (.arg n) (.argpath n)
  | namespaceArg : Excludes .arg0namespace (.arg 0)
  | namespaceArgpath : Excludes .arg0namespace (.argpath 0)
  | symm {k l : RuleKey} (h : Excludes k l) : Excludes l k

/-- A byte that may stand before a key: white space or an equals sign. -/
def isRuleDelimiter (c : UInt8) : Bool := isMatchSpace c || c = byte '='

/-- The pairs of a rule string, as they are written. Only the last value may end without a comma. -/
inductive RulePairs : Bytes → List (Bytes × Bytes) → Prop
  | done {s : Bytes} (h : ∀ c ∈ s, isRuleDelimiter c = true) : RulePairs s []
  | pair {lead key gap body value rest : Bytes} {pairs : List (Bytes × Bytes)}
      (hlead : ∀ c ∈ lead, isRuleDelimiter c = true) (hne : key ≠ []) (hkey : ∀ c ∈ key, isRuleDelimiter c = false)
      (hgap : ∀ c ∈ gap, isMatchSpace c = true) (hvalue : ReadsValue body value rest) (hrest : RulePairs rest pairs) :
      RulePairs (lead ++ (key ++ (gap ++ byte '=' :: body))) ((key, value) :: pairs)

/-- A pair as it is written, and as it is meant. -/
def PairSpelled (fewest : ℕ) (written : Bytes × Bytes) (pair : RuleKey × Bytes) : Prop :=
  pair.1.Spelled fewest written.1 ∧ pair.2 = written.2

/-- The pairs that a rule keeps of the ones that are written. Where `eavesdrop` is allowed, its value
is checked and it is dropped. -/
inductive PairsKept (fewest : ℕ) (allowEavesdrop : Bool) : List (Bytes × Bytes) → List (RuleKey × Bytes) → Prop
  | nil : PairsKept fewest allowEavesdrop [] []
  | cons {p : Bytes × Bytes} {q : RuleKey × Bytes} {written : List (Bytes × Bytes)} {pairs : List (RuleKey × Bytes)}
      (hp : PairSpelled fewest p q) (hrest : PairsKept fewest allowEavesdrop written pairs) :
      PairsKept fewest allowEavesdrop (p :: written) (q :: pairs)
  | eavesdrop {value : Bytes} {written : List (Bytes × Bytes)} {pairs : List (RuleKey × Bytes)}
      (hallow : allowEavesdrop = true) (hvalue : value = lit "true" ∨ value = lit "false")
      (hrest : PairsKept fewest allowEavesdrop written pairs) :
      PairsKept fewest allowEavesdrop ((lit "eavesdrop", value) :: written) pairs

/-- A rule string of the grammar, and the pairs it is made of. -/
structure RuleString (fewest : ℕ) (allowEavesdrop : Bool) (s : Bytes) (pairs : List (RuleKey × Bytes)) : Prop where
  spelled : ∃ written, RulePairs s written ∧ PairsKept fewest allowEavesdrop written pairs
  accepted : ∀ p ∈ pairs, p.1.accepts p.2 = true
  compatible : pairs.Pairwise fun p q => ¬p.1.Excludes q.1

/-- The name of a message type in a rule. -/
def matchTypeName (type : UInt8) : Option Bytes :=
  if type = dbusMessageTypeSignal then some (lit "signal")
  else if type = dbusMessageTypeMethodCall then some (lit "method_call")
  else if type = dbusMessageTypeMethodReturn then some (lit "method_return")
  else if type = dbusMessageTypeError then some (lit "error")
  else none

namespace MatchKeys

/-- The value of a key. -/
def get (keys : MatchKeys) : RuleKey → Option Bytes
  | .type => matchTypeName keys.filter.type
  | .sender => keys.sender
  | .destination => keys.destination
  | .interface => keys.filter.interface
  | .member => keys.filter.member
  | .path => keys.filter.path
  | .pathNamespace => keys.pathNamespace
  | .arg0namespace => keys.arg0namespace
  | .arg n => argAt keys.filter.args n
  | .argpath n => argAt keys.filter.argpaths n

/-- The arrays end with their last used slot, and the type is one that a rule can name. -/
structure Tight (keys : MatchKeys) : Prop where
  args : keys.filter.args.getLast? ≠ some none
  argpaths : keys.filter.argpaths.getLast? ≠ some none
  type : keys.filter.type = dbusMessageTypeInvalid ∨ (matchTypeName keys.filter.type).isSome

/-- The keys hold exactly the pairs of a list. -/
structure Records (keys : MatchKeys) (pairs : List (RuleKey × Bytes)) : Prop where
  tight : keys.Tight
  get : ∀ k v, keys.get k = some v ↔ (k, v) ∈ pairs

end MatchKeys

end DbusBroker
