import Resumable.Disposal

set_option autoImplicit false

/-!
# The machine

The answers to requests refer to the answers to further requests.  The machine ties this knot: with
one unit of fuel more it answers a request, and has what is left for the requests that come up
meanwhile.  Without fuel a request is interrupted, and that is never mistaken for an answer.
-/

namespace Resumable

/-- The answer to a request, given the answers to the requests that it leads to. -/
def Request.answer (e : Engine) : Request → Run World Value
  | .resume g input => e.resume g input
  | .throw g thrown => e.answerThrow g thrown
  | .close g => e.answerClose g
  | .reclaim o => do
      e.reclaim o
      return .none

namespace Machine

/-- The answers to requests with a bounded nesting of them. -/
def perform : Nat → Request → Run World Value
  | 0, _ => throw .outOfFuel
  | n + 1, request => request.answer ⟨n, perform n⟩

/-- The engine with the given fuel. -/
def engine (fuel : Nat) : Engine := ⟨fuel, perform fuel⟩

theorem perform_zero (request : Request) (w : World) :
    perform 0 request w = .error .outOfFuel w := rfl

theorem perform_succ (n : Nat) (request : Request) :
    perform (n + 1) request = request.answer (engine n) := rfl

end Machine

end Resumable
