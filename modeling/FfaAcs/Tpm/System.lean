import FfaAcs.Tpm.Effect

/-!
# The service and its clients

A run interleaves requests to the service with writes of its clients to the CRB memory. Clients
write LOC_CTRL, CTRL_START and the data buffers of all localities; LOC_STS belongs to the service.
`run_induction` proves a property of all runs from the effects of one request.
-/

namespace FfaAcs.Tpm

open Machine

/-- A write of a client to the CRB memory. -/
inductive ClientWrite
  | locCtrl (locality : Locality) (v : ℕ)
  | ctrlStart (locality : Locality) (v : ℕ)
  | data (locality : Locality) (i : Fin crbDataBufferSize) (b : UInt8)
deriving DecidableEq, Repr

/-- One step of a run: a write of a client, or a request and what the service finds around it. -/
inductive Input
  | write (w : ClientWrite)
  | request (env : Env) (r : Request)
deriving DecidableEq, Repr

section

variable {σ : Type*}

/-- Carry out a write. A write that changes CTRL_START from clear to set is recorded. -/
def Service.clientWrite (s : Service σ) : ClientWrite → Service σ
  | .locCtrl l v => { s with mem := s.mem.store (valTpmCrbLocCtrl l) 4 v }
  | .ctrlStart l v =>
    { s with
      mem := s.mem.store (valTpmCrbCtrlStart l) 4 v
      events := s.events ++ if started s.mem l = false ∧ v % 2 = 1 then [.startSet l] else [] }
  | .data l i b => { s with mem := s.mem.poke (valTpmCrbDataBuffer l + i) b }

/-- Carry out one step. -/
def step (pal : Pal σ) (s : Service σ) : Input → Service σ
  | .write w => s.clientWrite w
  | .request env r => (valTpmCrbServiceHandleRequest pal env s r).1

/-- Carry out a whole run. -/
def run (pal : Pal σ) (s : Service σ) (inputs : List Input) : Service σ := inputs.foldl (step pal) s

/-- What holds at the start and is kept by client writes and by all effects of requests, each time
with its answer recorded, holds after every run. -/
theorem run_induction {pal : Pal σ} {s₀ : Service σ} {P : List Input → Service σ → Prop}
    (hstart : P [] s₀)
    (hwrite : ∀ pre s w, s = run pal s₀ pre → P pre s → P (pre ++ [.write w]) (s.clientWrite w))
    (hrequest : ∀ pre s env r t result, s = run pal s₀ pre → P pre s → Effect pal env r s t result →
      P (pre ++ [.request env r]) (t.noteEvent (.answered r (respond r result))))
    (inputs : List Input) : P inputs (run pal s₀ inputs) := by
  induction inputs using List.reverseRecOn with
  | nil => exact hstart
  | append_singleton pre i ih =>
    have hrun : run pal s₀ (pre ++ [i]) = step pal (run pal s₀ pre) i := List.foldl_concat ..
    rw [hrun]
    cases i with
    | write w => exact hwrite pre _ w rfl ih
    | request env r => exact hrequest pre _ env r _ _ rfl ih (dispatch_effect pal env _ r)

end

end FfaAcs.Tpm
