import Mathlib.Algebra.Group.Nat.Defs

/-!
# Tree hashes with a stack

A tree hash splits its leaves at the largest power of two below their number, on both sides again,
down to single leaves. An incremental hash sees one leaf after the other: it keeps a stack with one
complete subtree for each binary digit `1` of the number of leaves so far, merges subtrees of equal
size as soon as they are complete, and at the end merges what is on the stack from the top down.

Nodes are in `α`. The value of a node that its parent takes in is in `β`, so that the topmost node
may be finished in another way than the others.

* `TreeOf`: the node over a list of leaves.
* `Stacked`: the stack after some leaves, digit by digit.
* `push_stacked`, `treeOf_foldl`: the stack holds its subtrees, and its merger is the tree.
-/

namespace Xhttp.TreeHash

/-- The largest power of two below `n`, for `2 ≤ n`. -/
def leftLen (n : Nat) : Nat := 2 ^ (n - 1).log2

theorem leftLen_pos (n : Nat) : 0 < leftLen n := Nat.two_pow_pos _

/-- It is below `n`, and twice as much is not. -/
theorem leftLen_lt_le {n : Nat} (h : 2 ≤ n) : leftLen n < n ∧ n ≤ 2 * leftLen n := by
  have hle := Nat.log2_self_le (n := n - 1) (by omega)
  have hlt := Nat.lt_log2_self (n := n - 1)
  rw [Nat.pow_succ] at hlt
  unfold leftLen
  omega

theorem leftLen_pow_add {k r : Nat} (hr : 0 < r) (hk : r ≤ 2 ^ k) :
    leftLen (2 ^ k + r) = 2 ^ k := by
  have hpos := Nat.two_pow_pos k
  have hlog : (2 ^ k + r - 1).log2 = k := by
    rw [Nat.log2_eq_iff (by omega), Nat.pow_succ]
    omega
  rw [leftLen, hlog]

variable {α β : Type} (cv : α → β) (parent : β → β → α)

/-- The node over a list of leaves. -/
inductive TreeOf : List α → α → Prop
  | leaf (a : α) : TreeOf [a] a
  | node {xs ys : List α} {a b : α} (split : xs.length = leftLen (xs.length + ys.length))
      (left : TreeOf xs a) (right : TreeOf ys b) : TreeOf (xs ++ ys) (parent (cv a) (cv b))

/-- Pushes the value of a subtree as number `count`, counted in subtrees of its size, after merging
it with the subtrees of its size on the stack. The head of the list is the top of the stack. -/
def push : List β → β → Nat → Option (List β)
  | [], v, count => if count % 2 = 0 then none else some [v]
  | left :: stack, v, count =>
    if count % 2 = 0 then push stack (cv (parent left v)) (count / 2)
    else some (v :: left :: stack)

/-- The stack after `count` subtrees of `2 ^ k` leaves: the lowest digit of `count` says whether
one of them is on top, and below are subtrees of `2 ^ (k + 1)` leaves. -/
inductive Stacked : Nat → Nat → List β → List α → Prop
  | nil (k : Nat) : Stacked k 0 [] []
  | even {k count : Nat} {stack : List β} {xs : List α} (h : Stacked (k + 1) count stack xs) :
      Stacked k (2 * count) stack xs
  | odd {k count : Nat} {stack : List β} {xs ys : List α} {a : α}
      (h : Stacked (k + 1) count stack xs) (full : ys.length = 2 ^ k)
      (tree : TreeOf cv parent ys a) : Stacked k (2 * count + 1) (cv a :: stack) (xs ++ ys)

variable {cv parent}

section

variable {xs ys : List α} {a : α} {count k : Nat} {stack : List β}

theorem TreeOf.length_pos (h : TreeOf cv parent xs a) : 0 < xs.length := by
  induction h with
  | leaf a => exact Nat.one_pos
  | node split left right hl hr =>
    rw [List.length_append]
    omega

/-- A complete tree on the left of one that is not larger. -/
theorem TreeOf.append {b : α} (hx : TreeOf cv parent xs a) (hy : TreeOf cv parent ys b)
    (hxl : xs.length = 2 ^ k) (hyl : ys.length ≤ 2 ^ k) :
    TreeOf cv parent (xs ++ ys) (parent (cv a) (cv b)) := by
  refine .node ?_ hx hy
  rw [hxl, leftLen_pow_add hy.length_pos hyl]

theorem push_odd (stack : List β) (v : β) (count : Nat) :
    push cv parent stack v (2 * count + 1) = some (v :: stack) := by
  cases stack with
  | nil | cons left stack => rw [push, if_neg (by omega)]

/-- The next subtree: `push` finds what it merges, and leaves the stack of one subtree more. -/
theorem push_stacked (h : Stacked cv parent k count stack xs) (hlen : ys.length = 2 ^ k)
    (htree : TreeOf cv parent ys a) :
    ∃ stack', push cv parent stack (cv a) (count + 1) = some stack' ∧
      Stacked cv parent k (count + 1) stack' (xs ++ ys) := by
  induction h generalizing ys a with
  | nil k => exact ⟨[cv a], push_odd [] (cv a) 0, .odd (.nil (k + 1)) hlen htree⟩
  | even h => exact ⟨_, push_odd _ (cv a) _, .odd h hlen htree⟩
  | @odd k count stack xs zs b h full tree ih =>
    -- the digit is `1`: both subtrees become one of the next size
    have hmerged := tree.append htree full (Nat.le_of_eq hlen)
    obtain ⟨stack', hpush, hstack⟩ := ih (by rw [List.length_append, full, hlen]; omega) hmerged
    refine ⟨stack', ?_, ?_⟩
    · rw [push, if_pos (by omega), show (2 * count + 1 + 1) / 2 = count + 1 by omega, hpush]
    · rw [List.append_assoc]
      exact hstack.even

/-- Merging the stack with a last subtree that is not larger than the smallest on the stack. -/
theorem treeOf_foldl (h : Stacked cv parent k count stack xs) (hlen : ys.length ≤ 2 ^ k)
    (htree : TreeOf cv parent ys a) :
    TreeOf cv parent (xs ++ ys) (stack.foldl (fun a left => parent left (cv a)) a) := by
  induction h generalizing ys a with
  | nil k => exact htree
  | even h ih => exact ih (by omega) htree
  | odd h full tree ih =>
    rw [List.foldl_cons, List.append_assoc]
    exact ih (by rw [List.length_append]; omega) (tree.append htree full hlen)

end

end Xhttp.TreeHash
