/-!
# Printed trees

Trees of labels, and the text in which each label has a row of its own. What stands in front of a
label shows where its row belongs and depends on the shape of the trees, never on the labels.
-/

namespace Scaffold

/-- Trees of labels that stand side by side: the label of the first, what is below it, and the trees
behind it. -/
inductive LabelForest where
  | nil
  | tree (label : String) (below next : LabelForest)
deriving DecidableEq, Repr

namespace LabelForest

/-- Whether there is no tree. -/
def isEmpty : LabelForest → Bool
  | nil => true
  | tree _ _ _ => false

/-- The labels, each in front of those below it. -/
def labels : LabelForest → List String
  | nil => []
  | tree label below next => label :: below.labels ++ next.labels

/-- The rows of the trees; each starts with `lead`. -/
def rows (lead : String) : LabelForest → List String
  | nil => []
  | tree label below next =>
    (lead ++ (if next.isEmpty then "└─ " else "├─ ") ++ label) ::
      below.rows (lead ++ if next.isEmpty then "   " else "│  ") ++ next.rows lead

/-- The text of the trees below a root. Every row ends in a line feed. -/
def print (root : String) (forest : LabelForest) : String :=
  String.join ((root :: forest.rows "").map (· ++ "\n"))

end LabelForest

end Scaffold
