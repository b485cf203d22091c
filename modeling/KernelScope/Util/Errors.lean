/-!
# Errors

The error values of `util/errors.hpp`.
-/

namespace KernelScope.Errors

inductive ErrorCode where
  | ok
  | bpfLoadFailed
  | bpfAttachFailed
  | bpfMapError
  | kernelTooOld
  | noBtf
  | permissionDenied
  | invalidArgument
  | ioError
  | symbolizationFailed
  | recordFormatError
  | configError
  | unsupported
  | internal
  deriving DecidableEq

structure Error where
  code : ErrorCode
  message : String
  deriving DecidableEq

/-- `std::expected<void, Error>` -/
abbrev Status := Except Error Unit

def makeError (code : ErrorCode) (msg : String) : Error := ⟨code, msg⟩

/-- `strerror` is the text of the current `errno`. -/
def errnoError (code : ErrorCode) (context strerror : String) : Error :=
  ⟨code, context ++ ": " ++ strerror⟩

end KernelScope.Errors
