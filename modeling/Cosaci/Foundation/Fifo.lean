import Mathlib.Data.List.Forall2
import Mathlib.Tactic

/-!
# Requests and replies over a first-in first-out channel

One side writes requests, the other answers them in the order in which they arrive.
The reply that is read next belongs to the oldest request that has not been answered,
so it belongs to the request just written only if no other is outstanding.
-/

namespace Cosaci.Foundation

variable {ρ π : Type} {answers : ρ → π → Prop}

/-- The replies answer the first of the requests, one by one and in order. -/
def InOrder (answers : ρ → π → Prop) (requests : List ρ) (replies : List π) : Prop :=
  List.Forall₂ answers (requests.take replies.length) replies

namespace InOrder

variable {replies later : List π}

/-- The reply that comes next belongs to the oldest outstanding request. -/
theorem next {requests : List ρ} {reply : π}
    (ordered : InOrder answers requests (replies ++ reply :: later)) :
    ∃ request, requests[replies.length]? = some request ∧ answers request reply := by
  unfold InOrder at ordered
  induction replies generalizing requests with
  | nil =>
      cases requests with
      | nil => cases ordered
      | cons request rest => exact ⟨request, rfl, (List.forall₂_cons.mp ordered).1⟩
  | cons first replies ih =>
      cases requests with
      | nil => cases ordered
      | cons request rest => exact ih (List.forall₂_cons.mp ordered).2

/-- Without outstanding requests, the next reply belongs to the next request. -/
theorem next_of_settled {requests more : List ρ} {request : ρ} {reply : π}
    (ordered : InOrder answers (requests ++ request :: more) (replies ++ reply :: later))
    (settled : replies.length = requests.length) : answers request reply := by
  rcases ordered.next with ⟨asked, here, answered⟩
  rw [settled, List.getElem?_append_right le_rfl, Nat.sub_self] at here
  cases here
  exact answered

/-- Otherwise it belongs to an earlier one. -/
theorem next_of_outstanding {requests more : List ρ} {reply : π}
    (ordered : InOrder answers (requests ++ more) (replies ++ reply :: later))
    (outstanding : replies.length < requests.length) :
    ∃ request ∈ requests, answers request reply := by
  rcases ordered.next with ⟨request, here, answered⟩
  rw [List.getElem?_append_left outstanding] at here
  exact ⟨request, List.mem_of_getElem? here, answered⟩

end InOrder

end Cosaci.Foundation
