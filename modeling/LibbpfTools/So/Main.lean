/-
LibbpfTools.So.Main — `main` of `libbpfso.c`.

The setup differs from the tracer's in what is put into `err`: the variable
has no initial value, the first steps return without it, and of the other two
only the attachment of the uprobe assigns it when it fails.
-/
import LibbpfTools.MainLoop

namespace LibbpfTools.So

/-- What the calls of `main` return. -/
structure Env where
  /-- `setrlimit` succeeds. -/
  rlimit : Bool
  /-- `libbpfso_bpf__open_and_load` does not return a null pointer. -/
  opened : Bool
  /-- The `errno` of a failed `bpf_program__attach_uprobe_opts`. -/
  link : Option Errno
  /-- `ring_buffer__new` does not return a null pointer. -/
  ringBuffer : Bool
  polls : List Int
  signalled : Bool

def main (env : Env) : Outcome :=
  if !env.rlimit then .returned 1
  else if !env.opened then .returned 1
  else
    match env.link with
    | some errno => returnErr (some (-errno.val))
    | none =>
        -- no step has assigned `err` so far, and a failure here does not either
        if !env.ringBuffer then returnErr none
        else afterLoop (pollLoop env.signalled env.polls none)

end LibbpfTools.So
