import KernelScope.Library.Columns
import Mathlib.Data.List.Nodup

/-!
# System call names

`syscall_name` of `core/event_decoder.cpp` looks a number up in a table of the
x86-64 system calls.  Numbers beyond the table, and those in its gap, are named
after themselves.
-/

namespace KernelScope.SyscallNames

open KernelScope.Columns
open KernelScope.Decimal

/-- The table up to the gap: the names of 0 to 334. -/
def oldNames : List String := [
    "read", "write", "open", "close", "stat", "fstat", "lstat", "poll", "lseek",
    "mmap", "mprotect", "munmap", "brk", "rt_sigaction", "rt_sigprocmask",
    "rt_sigreturn", "ioctl", "pread64", "pwrite64", "readv", "writev", "access",
    "pipe", "select", "sched_yield", "mremap", "msync", "mincore", "madvise",
    "shmget", "shmat", "shmctl", "dup", "dup2", "pause", "nanosleep", "getitimer",
    "alarm", "setitimer", "getpid", "sendfile", "socket", "connect", "accept",
    "sendto", "recvfrom", "sendmsg", "recvmsg", "shutdown", "bind", "listen",
    "getsockname", "getpeername", "socketpair", "setsockopt", "getsockopt", "clone",
    "fork", "vfork", "execve", "exit", "wait4", "kill", "uname", "semget", "semop",
    "semctl", "shmdt", "msgget", "msgsnd", "msgrcv", "msgctl", "fcntl", "flock",
    "fsync", "fdatasync", "truncate", "ftruncate", "getdents", "getcwd", "chdir",
    "fchdir", "rename", "mkdir", "rmdir", "creat", "link", "unlink", "symlink",
    "readlink", "chmod", "fchmod", "chown", "fchown", "lchown", "umask",
    "gettimeofday", "getrlimit", "getrusage", "sysinfo", "times", "ptrace",
    "getuid", "syslog", "getgid", "setuid", "setgid", "geteuid", "getegid",
    "setpgid", "getppid", "getpgrp", "setsid", "setreuid", "setregid", "getgroups",
    "setgroups", "setresuid", "getresuid", "setresgid", "getresgid", "getpgid",
    "setfsuid", "setfsgid", "getsid", "capget", "capset", "rt_sigpending",
    "rt_sigtimedwait", "rt_sigqueueinfo", "rt_sigsuspend", "sigaltstack", "utime",
    "mknod", "uselib", "personality", "ustat", "statfs", "fstatfs", "sysfs",
    "getpriority", "setpriority", "sched_setparam", "sched_getparam",
    "sched_setscheduler", "sched_getscheduler", "sched_get_priority_max",
    "sched_get_priority_min", "sched_rr_get_interval", "mlock", "munlock",
    "mlockall", "munlockall", "vhangup", "modify_ldt", "pivot_root", "_sysctl",
    "prctl", "arch_prctl", "adjtimex", "setrlimit", "chroot", "sync", "acct",
    "settimeofday", "mount", "umount2", "swapon", "swapoff", "reboot",
    "sethostname", "setdomainname", "iopl", "ioperm", "create_module",
    "init_module", "delete_module", "get_kernel_syms", "query_module", "quotactl",
    "nfsservctl", "getpmsg", "putpmsg", "afs_syscall", "tuxcall", "security",
    "gettid", "readahead", "setxattr", "lsetxattr", "fsetxattr", "getxattr",
    "lgetxattr", "fgetxattr", "listxattr", "llistxattr", "flistxattr",
    "removexattr", "lremovexattr", "fremovexattr", "tkill", "time", "futex",
    "sched_setaffinity", "sched_getaffinity", "set_thread_area", "io_setup",
    "io_destroy", "io_getevents", "io_submit", "io_cancel", "get_thread_area",
    "lookup_dcookie", "epoll_create", "epoll_ctl_old", "epoll_wait_old",
    "remap_file_pages", "getdents64", "set_tid_address", "restart_syscall",
    "semtimedop", "fadvise64", "timer_create", "timer_settime", "timer_gettime",
    "timer_getoverrun", "timer_delete", "clock_settime", "clock_gettime",
    "clock_getres", "clock_nanosleep", "exit_group", "epoll_wait", "epoll_ctl",
    "tgkill", "utimes", "vserver", "mbind", "set_mempolicy", "get_mempolicy",
    "mq_open", "mq_unlink", "mq_timedsend", "mq_timedreceive", "mq_notify",
    "mq_getsetattr", "kexec_load", "waitid", "add_key", "request_key", "keyctl",
    "ioprio_set", "ioprio_get", "inotify_init", "inotify_add_watch",
    "inotify_rm_watch", "migrate_pages", "openat", "mkdirat", "mknodat", "fchownat",
    "futimesat", "newfstatat", "unlinkat", "renameat", "linkat", "symlinkat",
    "readlinkat", "fchmodat", "faccessat", "pselect6", "ppoll", "unshare",
    "set_robust_list", "get_robust_list", "splice", "tee", "sync_file_range",
    "vmsplice", "move_pages", "utimensat", "epoll_pwait", "signalfd",
    "timerfd_create", "eventfd", "fallocate", "timerfd_settime", "timerfd_gettime",
    "accept4", "signalfd4", "eventfd2", "epoll_create1", "dup3", "pipe2",
    "inotify_init1", "preadv", "pwritev", "rt_tgsigqueueinfo", "perf_event_open",
    "recvmmsg", "fanotify_init", "fanotify_mark", "prlimit64", "name_to_handle_at",
    "open_by_handle_at", "clock_adjtime", "syncfs", "sendmmsg", "setns", "getcpu",
    "process_vm_readv", "process_vm_writev", "kcmp", "finit_module",
    "sched_setattr", "sched_getattr", "renameat2", "seccomp", "getrandom",
    "memfd_create", "kexec_file_load", "bpf", "execveat", "userfaultfd",
    "membarrier", "mlock2", "copy_file_range", "preadv2", "pwritev2",
    "pkey_mprotect", "pkey_alloc", "pkey_free", "statx", "io_pgetevents", "rseq"]

/-- The table behind the gap: the names of 415 to 452. -/
def newNames : List String := [
    "pidfd_send_signal", "io_uring_setup", "io_uring_enter", "io_uring_register",
    "open_tree", "move_mount", "fsopen", "fsconfig", "fsmount", "fspick",
    "pidfd_open", "clone3", "close_range", "openat2", "pidfd_getfd", "faccessat2",
    "process_madvise", "epoll_pwait2", "mount_setattr", "quotactl_fd",
    "landlock_create_ruleset", "landlock_add_rule", "landlock_restrict_self",
    "memfd_secret", "process_mrelease", "futex_waitv", "set_mempolicy_home_node",
    "cachestat", "fchmodat2", "map_shadow_stack", "futex_wake", "futex_wait",
    "futex_requeue", "statmount", "listmount", "lsm_get_self_attr",
    "lsm_set_self_attr", "lsm_list_modules"]

/-- The `table` of `syscall_name`, with its 80 null pointers. -/
def table : List (Option String) :=
  oldNames.map some ++ List.replicate 80 none ++ newNames.map some

def syscallName (id : UInt64) : String :=
  match table[id.toNat]? with
  | some (some name) => name
  | _ => "sys_" ++ id.toNat.repr

/-! ## Distinct names -/

/-- Whether no two items have the same hash value; the bits of `seen` are the
values met before. -/
def separates {A : Type*} (hash : A → ℕ) : ℕ → List A → Bool
  | _, [] => true
  | seen, item :: items =>
      !seen.testBit (hash item) && separates hash (seen ||| 1 <<< hash item) items

theorem nodup_of_separates {A : Type*} {hash : A → ℕ} {seen : ℕ} {items : List A}
    (hseparates : separates hash seen items = true) :
    items.Nodup ∧ ∀ item ∈ items, seen.testBit (hash item) = false := by
  induction items generalizing seen with
  | nil => simp
  | cons item items ih =>
      rw [separates, Bool.and_eq_true, Bool.not_eq_true'] at hseparates
      obtain ⟨hnodup, hunseen⟩ := ih hseparates.2
      simp only [Nat.testBit_or, Bool.or_eq_false_iff] at hunseen
      rw [List.nodup_cons, List.forall_mem_cons]
      refine ⟨⟨fun hitem => ?_, hnodup⟩, hseparates.1,
        fun other hother => (hunseen other hother).1⟩
      have hbit := (hunseen item hitem).2
      simp [Nat.testBit_shiftLeft] at hbit

/-- The bytes of a name as a number, modulo one that keeps the names apart. -/
def nameHash (name : String) : ℕ :=
  (ascii name).foldl (fun code c => code * 256 + c.toNat) 1 % 10148

theorem nodup_names : (table.filterMap id).Nodup := by
  have hseparates : separates nameHash 0 (oldNames ++ newNames) = true := by
    decide +kernel
  have hnames : table.filterMap id = oldNames ++ newNames := by
    simp [table, List.filterMap_append, List.filterMap_map]
  rw [hnames]
  exact (nodup_of_separates hseparates).1

/-- No name in the table looks like a number's own name. -/
theorem take_four_ne {name : String} (hname : name ∈ table.filterMap id) :
    (ascii name).take 4 ≠ ascii "sys_" := by
  revert name
  decide +kernel

theorem index_eq_of_name {first second : ℕ} {name : String}
    (hfirst : table[first]? = some (some name))
    (hsecond : table[second]? = some (some name)) : first = second := by
  have hpairs := nodup_names
  rw [List.Nodup, List.pairwise_filterMap, List.pairwise_iff_getElem] at hpairs
  obtain ⟨hfirst', hfirst⟩ := List.getElem?_eq_some_iff.mp hfirst
  obtain ⟨hsecond', hsecond⟩ := List.getElem?_eq_some_iff.mp hsecond
  rcases Nat.lt_trichotomy first second with hlt | heq | hlt
  · exact absurd rfl (hpairs _ _ hfirst' hsecond' hlt name hfirst name hsecond)
  · exact heq
  · exact absurd rfl (hpairs _ _ hsecond' hfirst' hlt name hsecond name hfirst)

/-- A number is named by the table or after itself. -/
theorem syscallName_cases (id : UInt64) :
    table[id.toNat]? = some (some (syscallName id)) ∨
      syscallName id = "sys_" ++ id.toNat.repr := by
  unfold syscallName
  split
  next name hname => exact .inl hname
  next => exact .inr rfl

theorem mem_names {index : ℕ} {name : String}
    (hname : table[index]? = some (some name)) : name ∈ table.filterMap id :=
  List.mem_filterMap.mpr ⟨some name, List.mem_of_getElem? hname, rfl⟩

/-- What holds of the bytes of the table and of a number's own name holds of
the bytes of every name. -/
theorem forall_mem_syscallName {property : UInt8 → Prop} [DecidablePred property]
    (htable : ((table.filterMap id).flatMap ascii).all (fun c => property c) = true)
    (hown : (ascii "sys_").all (fun c => property c) = true)
    (hnumber : ∀ number, ∀ c ∈ decimal number, property c) (call : UInt64) :
    ∀ c ∈ ascii (syscallName call), property c := by
  simp only [List.all_eq_true, decide_eq_true_eq] at htable hown
  intro c hc
  rcases syscallName_cases call with hname | hname
  · exact htable c (List.mem_flatMap.mpr ⟨_, mem_names hname, hc⟩)
  · rw [hname, ascii_append, List.mem_append] at hc
    exact hc.elim (hown c) (hnumber _ c)

theorem isWord_syscallName (id : UInt64) : IsWord (ascii (syscallName id)) := by
  have hbytes : ∀ c ∈ ascii (syscallName id), c ≠ 32 ∧ c ≠ 10 :=
    forall_mem_syscallName (by decide +kernel) (by decide +kernel)
      (fun number c hc => ⟨ne_of_mem_of_not_mem hc (isWord_decimal number).noBlank,
        ne_of_mem_of_not_mem hc (isWord_decimal number).oneLine⟩) id
  refine ⟨?_, fun hmem => (hbytes 32 hmem).1 rfl, fun hmem => (hbytes 10 hmem).2 rfl⟩
  rcases syscallName_cases id with hname | hname
  · have hnames : ∀ name ∈ table.filterMap (fun name => name), ascii name ≠ [] := by
      decide +kernel
    exact hnames _ (mem_names hname)
  · rw [hname, ascii_append]
    exact List.append_ne_nil_of_left_ne_nil (by decide) _

theorem table_ne_own {number : ℕ} {name : String} {index : ℕ}
    (hname : table[index]? = some (some name)) : name ≠ "sys_" ++ number.repr := by
  rintro rfl
  apply take_four_ne (mem_names hname)
  rw [ascii_append]
  rfl

/-- Different system call numbers have different names. -/
theorem syscallName_injective : Function.Injective syscallName := by
  intro left right heq
  rw [← UInt64.toNat_inj]
  -- the table has each name once, and none that a number gives itself
  rcases syscallName_cases left with hleft | hleft <;>
    rcases syscallName_cases right with hright | hright
  · exact index_eq_of_name hleft (heq ▸ hright)
  · exact absurd (heq.trans hright) (table_ne_own hleft)
  · exact absurd (heq.symm.trans hleft) (table_ne_own hright)
  · have hown : ascii "sys_" ++ decimal left.toNat =
        ascii "sys_" ++ decimal right.toNat := by
      rw [decimal, decimal, ← ascii_append, ← ascii_append, ← hleft, ← hright, heq]
    exact decimal_injective (List.append_cancel_left hown)

end KernelScope.SyscallNames
