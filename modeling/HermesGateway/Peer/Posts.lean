import HermesGateway.Broker.Dispatcher

/-!
# What a call sends

A call to Hermes is not one request yet: `_post_rpc` may try again. It does so for reads only. A
submission opens one stream, and a cancellation is posted once, whatever comes back.

## Main definitions

* `Answer`, `postRpc` — the loop of `_post_rpc`, by the requests it makes
* `Rpc.posts`, `posted` — the requests of one call, and of all of them

## Main results

* `countP_posted` — calls that are no reads are not repeated
-/

namespace HermesGateway.Peer

open Broker

/-- What a pass of the loop of `_post_rpc` meets: the result, an answer that is none, an error of
HTTP, or one of the transport. -/
inductive Answer
  | result (value : Json)
  | refused
  | status (code : ℕ)
  | broken

/-- `_http_error`: the code of the error, and whether it is retryable. -/
def httpError (status : ℕ) : String × Bool :=
  if status = 401 ∨ status = 403 then ("a2a_auth", false)
  else if status = 429 then ("a2a_rate_limited", true)
  else if status = 404 then ("a2a_not_found", false)
  else ("a2a_http", 500 ≤ status)

/-- Whether the loop goes on after a pass that was not the last. -/
def goesOn (readOnly : Bool) : Answer → Bool
  | .result _ | .refused => false
  | .status code => readOnly && (httpError code).2 && (httpError code).1 ≠ "a2a_rate_limited"
  | .broken => readOnly

/-- The passes `_post_rpc` allows. -/
def attempts (readOnly : Bool) : ℕ := if readOnly then 3 else 1

/-- The requests the loop makes in that many passes at most. It may be cancelled while it waits for
an answer. -/
def postRpc (readOnly : Bool) : ℕ → List Answer → ℕ
  | 0, _ => 0
  | _ + 1, [] => 1
  | n + 1, a :: rest => if goesOn readOnly a then postRpc readOnly n rest + 1 else 1

theorem postRpc_le (readOnly : Bool) (n : ℕ) (answers : List Answer) :
    postRpc readOnly n answers ≤ n := by
  induction n generalizing answers with
  | zero => exact le_rfl
  | succ n ih =>
    cases answers with
    | nil => exact Nat.succ_le_succ (Nat.zero_le n)
    | cons a rest =>
      rw [postRpc]
      split_ifs
      · exact Nat.succ_le_succ (ih rest)
      · exact Nat.succ_le_succ (Nat.zero_le n)

/-- Whether a call is a read. -/
def Rpc.isRead : Rpc → Bool
  | .getTask _ _ => true
  | .sendStreamingMessage _ | .cancelTask _ _ => false

/-- The requests of one call: none if `discover` fails, the one of `_sse`, or those of
`_post_rpc`. -/
def Rpc.posts : Rpc → Option (List Answer) → ℕ
  | _, none => 0
  | .sendStreamingMessage _, some _ => 1
  | .getTask _ _, some answers => postRpc true (attempts true) answers
  | .cancelTask _ _, some answers => postRpc false (attempts false) answers

/-- **A call that is no read makes one request at most.** -/
theorem posts_le {rpc : Rpc} (h : Rpc.isRead rpc = false) (answers : Option (List Answer)) :
    Rpc.posts rpc answers ≤ 1 := by
  cases answers with
  | none => exact Nat.zero_le 1
  | some answers =>
    cases rpc with
    | sendStreamingMessage => exact le_rfl
    | cancelTask => exact postRpc_le false 1 answers
    | getTask => cases h

/-- The requests that calls make, by what is answered to each of them. -/
def posted (rpcs : List Rpc) (answers : ℕ → Option (List Answer)) : List Rpc :=
  rpcs.zipIdx.flatMap fun x => List.replicate (Rpc.posts x.1 (answers x.2)) x.1

/-- Calls that are no reads are not repeated. -/
theorem countP_posted {p : Rpc → Bool} (hp : ∀ rpc, p rpc = true → Rpc.isRead rpc = false)
    (rpcs : List Rpc) (answers : ℕ → Option (List Answer)) :
    (posted rpcs answers).countP p ≤ rpcs.countP p := by
  have hcall (x : Rpc × ℕ) :
      (List.replicate (Rpc.posts x.1 (answers x.2)) x.1).countP p ≤ [x.1].countP p := by
    rw [List.countP_replicate, List.countP_singleton]
    split_ifs with hx
    · exact posts_le (hp x.1 hx) _
    · exact le_rfl
  have hall (xs : List (Rpc × ℕ)) :
      (xs.flatMap fun x => List.replicate (Rpc.posts x.1 (answers x.2)) x.1).countP p ≤
        (xs.map Prod.fst).countP p := by
    induction xs with
    | nil => exact le_rfl
    | cons x xs ih =>
      rw [List.flatMap_cons, List.countP_append, List.map_cons, ← List.singleton_append,
        List.countP_append]
      exact Nat.add_le_add (hcall x) ih
  refine (hall rpcs.zipIdx).trans_eq ?_
  rw [List.zipIdx_map_fst]

theorem mem_of_posted {rpcs : List Rpc} {answers : ℕ → Option (List Answer)} {rpc : Rpc}
    (h : rpc ∈ posted rpcs answers) : rpc ∈ rpcs := by
  obtain ⟨x, hx, hmem⟩ := List.mem_flatMap.mp h
  rw [List.eq_of_mem_replicate hmem]
  exact List.fst_mem_of_mem_zipIdx hx

end HermesGateway.Peer
