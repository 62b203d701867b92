import EyaX.Console.CrashScreen
import EyaX.Console.Logo
import EyaX.Console.Undo
import EyaX.Elf.Headers
import EyaX.Elf.Image
import EyaX.Kernel.Memory
import EyaX.Kernel.Sleep
import EyaX.Kernel.Startup
import EyaX.Kernel.Unmask
import EyaX.Keyboard.Shifted
import EyaX.Pmm.Freeing
import EyaX.Pmm.MemoryMap
import EyaX.Pmm.Pool
import EyaX.Ppa.Agreement
import EyaX.Ppa.PageSets
import EyaX.Shell.Dialogue
import EyaX.Zmm.Conservation
import EyaX.Zmm.Fragmentation
import EyaX.Zmm.Nonpositive
