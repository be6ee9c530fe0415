import Armadito.Base

/-!
# Core.Status

`libarmadito/status.h` and the comparison of `status.c` by which the
answers of several scan modules are combined.
-/

namespace Armadito.Core

/-- `enum a6o_file_status`. -/
inductive A6oFileStatus where
  | undecided
  | clean
  | unknownType
  | einval
  | ierror
  | suspicious
  | whiteListed
  | malware
  deriving DecidableEq, Repr

/-- The value of the enumerator. -/
def A6oFileStatus.value : A6oFileStatus → Int
  | .undecided => 1
  | .clean => 2
  | .unknownType => 3
  | .einval => 4
  | .ierror => 5
  | .suspicious => 6
  | .whiteListed => 7
  | .malware => 8

/-- The comparison has no case for two of the statuses as first argument;
there it runs into `assert(1 == 0)`. -/
def a6oFileStatusCmp (s1 s2 : A6oFileStatus) : Except Fault Int :=
  if s1 = s2 then .ok 0
  else
    match s1 with
    | .undecided => .ok (-1)
    | .clean => .ok (if s2 = .undecided then 1 else -1)
    | .ierror => .ok (if s2 = .undecided ∨ s2 = .clean then 1 else -1)
    | .suspicious =>
      .ok (if s2 = .undecided ∨ s2 = .clean ∨ s2 = .ierror then 1 else -1)
    | .whiteListed =>
      .ok (if s2 = .undecided ∨ s2 = .clean ∨ s2 = .ierror ∨ s2 = .suspicious
        then 1 else -1)
    | .malware => .ok 1
    | .unknownType | .einval => .error .assertFailed

/-- The statuses the comparison has no case for. -/
def A6oFileStatus.IsGap (s : A6oFileStatus) : Prop :=
  s = .unknownType ∨ s = .einval

/-- The statuses after which no further module is asked. -/
def A6oFileStatus.IsAuthoritative (s : A6oFileStatus) : Prop :=
  s = .whiteListed ∨ s = .malware

instance (s : A6oFileStatus) : Decidable s.IsGap :=
  inferInstanceAs (Decidable (s = .unknownType ∨ s = .einval))

instance (s : A6oFileStatus) : Decidable s.IsAuthoritative :=
  inferInstanceAs (Decidable (s = .whiteListed ∨ s = .malware))

end Armadito.Core
