import Vic20.Storage.Basic

/-! Storage that keeps a record of what is asked of it, and answers as the storage behind it does. What holds of
a drive over any storage holds over this one, and there it tells which operations were performed. -/

namespace Vic20.Storage

inductive Call where
  | entries
  | openFile (name : String) (access : Access)
  | size (file : Handle)
  | read (file : Handle)
  | write (file : Handle) (bytes : List UInt8)
  | flush (file : Handle)
  deriving DecidableEq, Repr

structure Recorded (σ : Type) where
  behind : σ
  calls : List Call := []

namespace Recorded

variable {σ α : Type}

/-- The same storage with no calls recorded. -/
def anew (r : Recorded σ) : Recorded σ := ⟨r.behind, []⟩

/-- Notes a call, and passes it on. -/
def ask (r : Recorded σ) (c : Call) (f : σ → α × σ) : α × Recorded σ :=
  let (a, s) := f r.behind
  (a, ⟨s, r.calls ++ [c]⟩)

instance [Storage σ] : Storage (Recorded σ) where
  directory r := Storage.directory r.behind
  entries r := r.ask .entries Storage.entries
  openFile r name access := r.ask (.openFile name access) (Storage.openFile · name access)
  size r h := r.ask (.size h) (Storage.size · h)
  read r h := r.ask (.read h) (Storage.read · h)
  write r h bytes := r.ask (.write h bytes) (Storage.write · h bytes)
  flush r h := r.ask (.flush h) (Storage.flush · h)

end Recorded
end Vic20.Storage
