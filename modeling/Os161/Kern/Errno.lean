/-!
# Error numbers

The error numbers of `kern/errno.h` that the modelled functions return.
-/
namespace Os161.Kern

inductive Errno where
  | einval | efault | enametoolong | enomem | eio | enoent | enotdir | eisdir | eexist
  | eagain | eunimp | enxio | ebusy | enospc | enodev | enfile | enoexec
  | exdev | emfile | enosys | ebadf
  deriving DecidableEq, Repr

end Os161.Kern
